import Mathlib.Algebra.BigOperators.Group.List.Lemmas
import Mathlib.Algebra.Ring.Nat
import Mathlib.Data.List.Dedup
import Orchestration.Proofs.Categories

/-! What a review makes of the listings of a partition. Each is reported as unknown, is the first of its
node, or adds to the repetitions of its node; and every node without a listing is reported as uncovered. -/

set_option autoImplicit false

namespace Orchestration

namespace Ids

theorem ascending_perm_dedup (ids : List String) : (ascending ids).Perm ids.dedup := by
  apply (List.perm_ext_iff_of_nodup (nodup_ascending ids) ids.nodup_dedup).2
  simp

theorem sum_count_ascending (ids : List String) : ((ascending ids).map ids.count).sum = ids.length := by
  rw [((ascending_perm_dedup ids).map ids.count).sum_eq]
  exact List.sum_map_count_dedup_eq_length ids

/-- Ids that are used once or not at all add nothing to the sum of further uses. -/
theorem sum_further_uses (ids keys : List String) :
    ((keys.filter fun id => 1 < ids.count id).map fun id => ids.count id - 1).sum =
      (keys.map fun id => ids.count id - 1).sum := by
  induction keys with
  | nil => rfl
  | cons id rest ih =>
    by_cases many : 1 < ids.count id
    · simp [many, ih]
    · have none : ids.count id - 1 = 0 := by omega
      simp [many, ih, none]

/-- A list is as long as its ids are many, and longer by every use of an id after the first. -/
theorem length_eq_ascending_add_repeated (ids : List String) :
    ids.length = (ascending ids).length + ((repeated ids).map fun entry => entry.2 - 1).sum := by
  have once : ∀ id ∈ ascending ids, ids.count id = 1 + (ids.count id - 1) := by
    intro id member
    have used := List.count_pos_iff.2 (mem_ascending.1 member)
    omega
  calc ids.length = ((ascending ids).map ids.count).sum := (sum_count_ascending ids).symm
    _ = ((ascending ids).map fun id => 1 + (ids.count id - 1)).sum := by rw [List.map_congr_left once]
    _ = (ascending ids).length + ((ascending ids).map fun id => ids.count id - 1).sum := by
      rw [List.sum_map_add, List.map_const', List.sum_replicate_nat, Nat.mul_one]
    _ = (ascending ids).length + ((repeated ids).map fun entry => entry.2 - 1).sum := by
      rw [← sum_further_uses, repeated_eq, List.map_map]
      rfl

end Ids

namespace Partition

variable {graph : Graph} {partition : Partition}

theorem inCategory_unknownNode (settings : Settings) (graph : Graph) (partition : Partition) :
    (partition.review settings graph).inCategory .unknownNode =
      (partition.listings.filter (!graph.contains ·.node)).map fun listing =>
        ⟨.error, .unknownNode listing⟩ := by
  rw [inCategory_review, issuesIn, unknownIssues_eq]
  apply Report.findings_ofIssues_map
  exact fun _ => rfl

theorem inCategory_duplicateNode (settings : Settings) (graph : Graph) (partition : Partition) :
    (partition.review settings graph).inCategory .duplicateNode =
      (Ids.repeated (partition.listed.filter graph.contains)).map fun entry =>
        ⟨.error, .repeatedNode entry.1 (partition.owners entry.1)⟩ := by
  rw [inCategory_review, issuesIn, repeatedNodeIssues_eq]
  apply Report.findings_ofIssues_map
  exact fun _ => rfl

theorem inCategory_missingNode (settings : Settings) (graph : Graph) (partition : Partition) :
    (partition.review settings graph).inCategory .missingNode =
      (graph.nodes.keys.filter (· ∉ partition.listed)).map fun key =>
        ⟨if settings.fullCoverage then .error else .warning, .uncovered key⟩ := by
  rw [inCategory_review, issuesIn, uncoveredIssues_eq]
  apply Report.findings_ofIssues_map
  exact fun _ => rfl

theorem owners_listings (entry : Entry) (keys : List String) (node : String) :
    ((keys.map (Listing.mk entry)).filter (·.node = node)).map (·.entry.id) =
      List.replicate (keys.count node) entry.id := by
  induction keys with
  | nil => rfl
  | cons key rest ih =>
    by_cases same : key = node
    · simp [same, List.replicate_succ, ih]
    · simp [same, ih]

/-- The owners of a node are first the chains and then the regions that list it, in their order, each as
often as it does. -/
theorem owners_eq (partition : Partition) (node : String) :
    partition.owners node =
      partition.chains.flatMap (fun chain => List.replicate (chain.path.count node) chain.id) ++
        partition.regions.flatMap fun region =>
          List.replicate (region.batches.flatten.count node) region.id := by
  rw [owners, listings, List.filter_append, List.filter_flatMap, List.filter_flatMap, List.map_append,
    List.map_flatMap, List.map_flatMap]
  congr 1
  · exact List.flatMap_congr fun chain _ => owners_listings ⟨.chain, chain.id⟩ chain.path node
  · exact List.flatMap_congr fun region _ => owners_listings ⟨.region, region.id⟩ region.batches.flatten node

/-- Every node of a graph is listed or uncovered. -/
theorem length_ascending_add_uncovered (graph : Graph) (partition : Partition) :
    (Ids.ascending (partition.listed.filter graph.contains)).length +
      (graph.nodes.keys.filter (· ∉ partition.listed)).length = graph.size := by
  have covered : (Ids.ascending (partition.listed.filter graph.contains)).Perm
      (graph.nodes.keys.filter (· ∈ partition.listed)) := by
    apply (List.perm_ext_iff_of_nodup (Ids.nodup_ascending _) (graph.nodup_keys.filter _)).2
    intro key
    rw [Ids.mem_ascending, List.mem_filter, List.mem_filter, Graph.mem_keys, decide_eq_true_eq, and_comm]
  rw [covered.length_eq, Graph.size, ← Std.TreeMap.length_keys,
    graph.nodes.keys.length_eq_length_filter_add (· ∈ partition.listed)]
  simp

/-- Every listing names a node of the graph or is unknown. -/
theorem length_known_add_unknown (graph : Graph) (partition : Partition) :
    (partition.listed.filter graph.contains).length +
      (partition.listings.filter (!graph.contains ·.node)).length = partition.referenceCount := by
  rw [referenceCount, listed, List.filter_map, List.length_map,
    partition.listings.length_eq_length_filter_add (graph.contains ·.node)]
  rfl

/-- A repeated node has an owner for every use. -/
theorem length_owners_of_repeated {entry : String × Nat}
    (member : entry ∈ Ids.repeated (partition.listed.filter graph.contains)) :
    (partition.owners entry.1).length = entry.2 ∧ 1 < entry.2 := by
  obtain ⟨uses, many⟩ := Ids.mem_repeated.1 member
  refine ⟨?_, many⟩
  have known : graph.contains entry.1 = true := by
    have used := List.count_pos_iff.1 (show 0 < (partition.listed.filter graph.contains).count entry.1 by omega)
    exact (List.mem_filter.1 used).2
  rw [length_owners, uses, List.count_filter known]

section

variable (settings : Settings) (graph : Graph) (partition : Partition)

theorem count_unknownNode : (partition.review settings graph).count .unknownNode =
    (partition.listings.filter (!graph.contains ·.node)).length := by
  rw [Report.count_eq_length_inCategory, inCategory_unknownNode, List.length_map]

theorem count_missingNode : (partition.review settings graph).count .missingNode =
    (graph.nodes.keys.filter (· ∉ partition.listed)).length := by
  rw [Report.count_eq_length_inCategory, inCategory_missingNode, List.length_map]

theorem sum_duplicateNode :
    (((partition.review settings graph).inCategory .duplicateNode).map fun finding =>
      (Reportable.entries finding.issue).length - 1).sum =
    ((Ids.repeated (partition.listed.filter graph.contains)).map fun entry => entry.2 - 1).sum := by
  rw [inCategory_duplicateNode, List.map_map]
  congr 1
  apply List.map_congr_left
  intro entry member
  show (partition.owners entry.1).length - 1 = entry.2 - 1
  rw [(length_owners_of_repeated member).1]

/-- Every listing of a partition is accounted for by a review: it names no node, it is the first listing of
a node, of which there are as many as nodes that are not reported missing, or it is a repetition, and then
the finding for its node names the chain or region once more. -/
theorem listings_accounted :
    partition.referenceCount = (partition.review settings graph).count .unknownNode +
        (graph.size - (partition.review settings graph).count .missingNode) +
        (((partition.review settings graph).inCategory .duplicateNode).map fun finding =>
          (Reportable.entries finding.issue).length - 1).sum ∧
      (∀ finding ∈ (partition.review settings graph).inCategory .duplicateNode, ∃ node,
        Reportable.nodes finding.issue = [node] ∧ 1 < (Reportable.entries finding.issue).length ∧
          Reportable.entries finding.issue =
            partition.chains.flatMap (fun chain => List.replicate (chain.path.count node) chain.id) ++
              partition.regions.flatMap fun region =>
                List.replicate (region.batches.flatten.count node) region.id) ∧
      (partition.review settings graph).count .missingNode ≤ graph.size := by
  have nodes := length_ascending_add_uncovered graph partition
  have split := length_known_add_unknown graph partition
  have uses := Ids.length_eq_ascending_add_repeated (partition.listed.filter graph.contains)
  rw [count_unknownNode, count_missingNode, sum_duplicateNode]
  refine ⟨by omega, fun finding member => ?_, by omega⟩
  rw [inCategory_duplicateNode] at member
  obtain ⟨entry, repeats, rfl⟩ := List.mem_map.1 member
  obtain ⟨owners, many⟩ := length_owners_of_repeated repeats
  have several : 1 < (partition.owners entry.1).length := by omega
  exact ⟨entry.1, rfl, several, partition.owners_eq entry.1⟩

end

/-- A chain that lists a node twice and a stranger, a region that lists the node again, and a node that is
left out. -/
example :
    let nodes : List Node := [{ id := "a" }, { id := "b" }]
    let partition : Partition :=
      { chains := [⟨"line", ["a", "x", "a"]⟩], regions := [⟨"fan", [["a"]], []⟩] }
    let report := partition.review {} { nodes := .ofList (nodes.map fun node => (node.id, node)) }
    partition.referenceCount = 4 ∧ report.count .unknownNode = 1 ∧ report.count .missingNode = 1 ∧
      (report.inCategory .duplicateNode).map (Reportable.entries ·.issue) = [["line", "line", "fan"]] := by
  decide +kernel

end Partition

end Orchestration
