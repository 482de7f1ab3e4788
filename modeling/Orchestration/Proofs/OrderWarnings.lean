import Orchestration.Proofs.Categories
import Orchestration.Proofs.Emission

/-! Warnings of order. A review names every step of a chain that does not depend on the step before it, and
every dependency of a node in a region that its region lists, but not in an earlier batch. -/

set_option autoImplicit false

namespace Orchestration

namespace Region

variable {region : Region}

def firstBatch? (region : Region) (node : String) : Option Nat :=
  region.batches.findIdx? (node ∈ ·)

theorem find?_zipIdx {α : Type} (entries : List α) (wanted : α → Bool) (start : Nat) :
    ((entries.zipIdx start).find? fun entry => wanted entry.1).map Prod.snd =
      (entries.findIdx? wanted).map (· + start) := by
  induction entries generalizing start with
  | nil => rfl
  | cons entry rest ih =>
    rw [List.zipIdx_cons, List.find?_cons, List.findIdx?_cons]
    by_cases found : wanted entry
    · simp [found]
    · simp [found, ih, Function.comp_def, Nat.add_assoc, Nat.add_comm 1]

theorem batchOf?_eq (region : Region) (node : String) :
    region.batchOf? node = (region.firstBatch? node).map (· + 1) :=
  (region.batchOf?_eq_find? node).trans (find?_zipIdx region.batches (node ∈ ·) 1)

def ListsAt (region : Region) (index : Nat) (node : String) : Prop :=
  ∃ batch, region.batches[index]? = some batch ∧ node ∈ batch

theorem listsAt_of_firstBatch? {index : Nat} {node : String} (first : region.firstBatch? node = some index) :
    region.ListsAt index node := by
  obtain ⟨bound, lists, _⟩ := List.findIdx?_eq_some_iff_getElem.1 first
  exact ⟨region.batches[index], List.getElem?_eq_getElem bound, of_decide_eq_true lists⟩

/-- A node that is listed once is listed in one batch. -/
theorem ListsAt.unique (once : region.batches.flatten.Nodup) {index other : Nat} {node : String}
    (lists : region.ListsAt index node) (also : region.ListsAt other node) : index = other := by
  obtain ⟨one, found, inOne⟩ := lists
  obtain ⟨second, alsoFound, inSecond⟩ := also
  obtain ⟨bound, rfl⟩ := List.getElem?_eq_some_iff.1 found
  obtain ⟨alsoBound, rfl⟩ := List.getElem?_eq_some_iff.1 alsoFound
  have apart := List.pairwise_iff_getElem.1 (List.nodup_flatten.1 once).2
  rcases Nat.lt_trichotomy index other with less | same | more
  · exact absurd inSecond (apart index other bound alsoBound less inOne)
  · exact same
  · exact absurd inOne (apart other index alsoBound bound more inSecond)

theorem firstBatch?_eq_some (once : region.batches.flatten.Nodup) {index : Nat} {node : String}
    (lists : region.ListsAt index node) : region.firstBatch? node = some index := by
  cases first : region.firstBatch? node with
  | none =>
    obtain ⟨batch, found, inBatch⟩ := lists
    have missing := List.findIdx?_eq_none_iff.1 first batch (List.mem_of_getElem? found)
    simp [inBatch] at missing
  | some other => rw [(listsAt_of_firstBatch? first).unique once lists]

end Region

/-- The steps of a chain that do not depend on the step before them, with that step. Both are nodes of the
graph. -/
def Chain.unlinked (graph : Graph) (chain : Chain) : List (String × String) :=
  (chain.path.zip chain.path.tail).filter fun step =>
    graph.contains step.1 ∧ graph.contains step.2 ∧ step.1 ∉ (graph.nodeAt step.2).deps

/-- The dependencies of the nodes that a region lists, each after its node, where the region lists the
dependency, but first in the same batch or in a later one. -/
def Region.unready (graph : Graph) (region : Region) : List (String × String) :=
  region.batches.zipIdx.flatMap fun batch => (batch.1.filter graph.contains).flatMap fun node =>
    ((graph.nodeAt node).deps.filter fun dependency =>
      (region.firstBatch? dependency).any (batch.2 ≤ ·)).map (node, ·)

namespace Partition

variable {graph : Graph} {partition : Partition}

theorem chainOrderIssue?_eq_ite (selfKeyed : graph.SelfKeyed) (chain : Chain) (previous current : String) :
    chainOrderIssue? graph chain previous current =
      if graph.contains previous ∧ graph.contains current ∧ previous ∉ (graph.nodeAt current).deps then
        some (.chainOrder chain.id previous current) else none := by
  by_cases known : graph.contains previous = true ∧ graph.contains current = true
  · obtain ⟨first, second⟩ := known
    simp only [chainOrderIssue?, Graph.find?_eq_some_nodeAt first, Graph.find?_eq_some_nodeAt second,
      selfKeyed.id_nodeAt, Node.dependsOn, decide_eq_true_eq, first, second, true_and, ite_not]
  · rw [if_neg fun all => known ⟨all.1, all.2.1⟩]
    apply Option.eq_none_iff_forall_ne_some.2
    intro issue found
    obtain ⟨_, _, first, second, _, _⟩ := chainOrderIssue?_eq_some_iff.1 found
    exact known ⟨Graph.contains_iff.2 ⟨_, first⟩, Graph.contains_iff.2 ⟨_, second⟩⟩

theorem chainOrderIssues_eq (selfKeyed : graph.SelfKeyed) (chain : Chain) :
    chainOrderIssues graph chain =
      (chain.unlinked graph).map fun step => .chainOrder chain.id step.1 step.2 := by
  rw [chainOrderIssues, Chain.unlinked, ← List.filterMap_eq_map, List.filterMap_filter]
  apply List.filterMap_congr
  intro step _
  simp only [chainOrderIssue?_eq_ite selfKeyed, decide_eq_true_eq, Function.comp_apply]

def Issue.names (issue : Issue) : List String × List String :=
  (issue.nodes, issue.entries)

theorem map_names_batchOrderIssue? (region : Region) (index : Nat) (node dependency : String) :
    (batchOrderIssue? region (index + 1) node dependency).map Issue.names =
      if (region.firstBatch? dependency).any (index ≤ ·) then some ([node, dependency], [region.id]) else none := by
  rw [batchOrderIssue?, region.batchOf?_eq]
  cases region.firstBatch? dependency with
  | none => rfl
  | some first =>
    by_cases earlier : first < index
    · simp [earlier]
    · simp [earlier, Nat.le_of_not_lt earlier, Issue.names, Issue.nodes, Issue.entries]

theorem batchOrderIssues_eq (graph : Graph) (region : Region) :
    (batchOrderIssues graph region).map Issue.names =
      (region.unready graph).map fun late => ([late.1, late.2], [region.id]) := by
  rw [batchOrderIssues, Region.numbered, List.zipIdx_succ, Region.unready]
  simp only [List.flatMap_map, List.map_flatMap, flatMap_filter]
  refine List.flatMap_congr fun batch _ => List.flatMap_congr fun node _ => ?_
  by_cases known : graph.contains node = true
  · simp only [Graph.find?_eq_some_nodeAt known, if_pos known, List.map_filterMap, map_names_batchOrderIssue?]
    rw [List.map_map, ← List.filterMap_eq_map, List.filterMap_filter]
    rfl
  · have unknown : graph.find? node = none := by
      apply Option.eq_none_iff_forall_ne_some.2
      exact fun found stored => known (Graph.contains_iff.2 ⟨found, stored⟩)
    simp [unknown, known]

theorem Issue.grade_of_order {settings : Settings} {issue : Issue}
    (order : issue.category = .chainOrder ∨ issue.category = .batchOrder) : issue.grade settings = some .warning := by
  cases issue with
  | chainOrder => rfl
  | batchOrder => rfl
  | _ => simp [category] at order

/-- Under a category of order a review names what the check of that category does, and warns of it. -/
theorem map_names_items {category : Category} (order : category = .chainOrder ∨ category = .batchOrder)
    (settings : Settings) (graph : Graph) (partition : Partition) :
    ((partition.review settings graph).items.filter (·.issue.category = category)).map
        (fun finding => (finding.severity, finding.issue.names)) =
      ((issuesIn graph partition category).map Issue.names).map (.warning, ·) := by
  have graded : ∀ issue ∈ issuesIn graph partition category, issue.grade settings = some .warning := by
    intro issue member
    exact Issue.grade_of_order ((category_of_mem_issuesIn member).symm ▸ order)
  have closed : (partition.review settings graph).inCategory category =
      (issuesIn graph partition category).map (⟨.warning, ·⟩) := by
    rw [inCategory_review, Report.findings_ofIssues_of_graded graded]
  refine (congrArg (List.map _) (Report.filter_category_items closed)).trans ?_
  rw [List.map_map, List.map_map]
  rfl

end Partition

namespace Region

variable {region : Region} {graph : Graph}

/-- Dependencies between two nodes of a region go from one batch to a later one. -/
def Ordered (graph : Graph) (region : Region) : Prop :=
  ∀ earlier later dependency node found, region.ListsAt earlier dependency → region.ListsAt later node →
    graph.find? node = some found → dependency ∈ found.deps → earlier < later

theorem mem_unready {node dependency : String} :
    (node, dependency) ∈ region.unready graph ↔
      ∃ index found first, region.ListsAt index node ∧ graph.find? node = some found ∧ dependency ∈ found.deps ∧
        region.firstBatch? dependency = some first ∧ index ≤ first := by
  simp only [unready, List.mem_flatMap, List.mem_map, List.mem_filter, Option.any_eq_true, decide_eq_true_eq,
    List.mem_zipIdx_iff_getElem?, Prod.mk.injEq]
  constructor
  · rintro ⟨⟨batch, index⟩, place, key, ⟨inBatch, known⟩, listed, ⟨depends, first, found, late⟩, rfl, rfl⟩
    exact ⟨index, _, first, ⟨batch, place, inBatch⟩, Graph.find?_eq_some_nodeAt known, depends, found, late⟩
  · rintro ⟨index, found, first, ⟨batch, place, inBatch⟩, stored, depends, firstListed, late⟩
    have known := Graph.contains_iff.2 ⟨found, stored⟩
    have same : graph.nodeAt node = found :=
      Option.some.inj ((Graph.find?_eq_some_nodeAt known).symm.trans stored)
    exact ⟨(batch, index), place, node, ⟨inBatch, known⟩, dependency, ⟨same ▸ depends, first, firstListed, late⟩,
      rfl, rfl⟩

/-- Where no node is listed twice, the region is in order exactly if nothing is named. -/
theorem unready_eq_nil_iff (once : region.batches.flatten.Nodup) :
    region.unready graph = [] ↔ region.Ordered graph := by
  rw [List.eq_nil_iff_forall_not_mem]
  constructor
  · intro silent earlier later dependency node found lists also stored depends
    by_contra late
    exact silent (node, dependency) (mem_unready.2 ⟨later, found, earlier, also, stored, depends,
      firstBatch?_eq_some once lists, Nat.le_of_not_lt late⟩)
  · rintro ordered ⟨node, dependency⟩ member
    obtain ⟨index, found, first, lists, stored, depends, firstListed, late⟩ := mem_unready.1 member
    exact absurd (ordered first index dependency node found (listsAt_of_firstBatch? firstListed) lists stored depends)
      (Nat.not_lt_of_le late)

end Region

namespace Partition

variable {graph : Graph} {partition : Partition}

/-- In a graph whose nodes are stored under their own ids, the warnings of order are, in the order of chains and
regions, one for each step of a chain that does not depend on the step before it, and one for each dependency
of a listing in a region that the region lists first in the same batch or in a later one. A region that lists
no node twice gets none exactly if its dependencies go from earlier batches to later ones. -/
theorem order_warnings (selfKeyed : graph.SelfKeyed) (settings : Settings) (partition : Partition) :
    ((partition.review settings graph).items.filter (·.issue.category = .chainOrder)).map
        (fun finding => (finding.severity, finding.issue.names)) =
      (partition.chains.flatMap fun chain =>
        (chain.unlinked graph).map fun step => (.warning, [step.1, step.2], [chain.id])) ∧
    ((partition.review settings graph).items.filter (·.issue.category = .batchOrder)).map
        (fun finding => (finding.severity, finding.issue.names)) =
      (partition.regions.flatMap fun region =>
        (region.unready graph).map fun late => (.warning, [late.1, late.2], [region.id])) ∧
    ∀ region ∈ partition.regions, region.batches.flatten.Nodup →
      (region.unready graph = [] ↔ region.Ordered graph) := by
  refine ⟨?_, ?_, fun region _ once => Region.unready_eq_nil_iff once⟩
  · rw [map_names_items (.inl rfl), issuesIn, List.map_flatMap, List.map_flatMap]
    refine List.flatMap_congr fun chain _ => ?_
    rw [chainOrderIssues_eq selfKeyed, List.map_map, List.map_map]
    rfl
  · rw [map_names_items (.inr rfl), issuesIn, List.map_flatMap, List.map_flatMap]
    refine List.flatMap_congr fun region _ => ?_
    rw [batchOrderIssues_eq, List.map_map]
    rfl

def entangledGraph : Graph where
  nodes := .ofList <| [{ id := "a" }, { id := "b", deps := ["a", "a"] }, { id := "c", deps := ["c", "x"] }].map
    fun node : Node => (node.id, node)

def entangled : Partition where
  chains := [{ id := "line", path := ["a", "x", "b", "c"] }]
  regions := [{ id := "back", batches := [["b"], ["a", "x"], ["c"]] }, { id := "forth", batches := [["a"], ["b"]] }]

theorem order_warnings_entangled :
    entangledGraph.SelfKeyed ∧
      ((entangled.review {} entangledGraph).items.filter (·.issue.category = .chainOrder)).map
          (fun finding => (finding.severity, finding.issue.names)) = [(.warning, ["b", "c"], ["line"])] ∧
      ((entangled.review {} entangledGraph).items.filter (·.issue.category = .batchOrder)).map
          (fun finding => (finding.severity, finding.issue.names)) =
        [(.warning, ["b", "a"], ["back"]), (.warning, ["b", "a"], ["back"]), (.warning, ["c", "c"], ["back"])] ∧
      ∀ region ∈ entangled.regions, region.Ordered entangledGraph ↔ region.id = "forth" := by
  have selfKeyed : entangledGraph.SelfKeyed := by decide +kernel
  obtain ⟨chains, regions, ordered⟩ := order_warnings selfKeyed {} entangled
  refine ⟨selfKeyed, chains.trans (by decide +kernel), regions.trans (by decide +kernel), ?_⟩
  intro region member
  have once : ∀ region ∈ entangled.regions, region.batches.flatten.Nodup := by decide +kernel
  have silent : ∀ region ∈ entangled.regions, region.unready entangledGraph = [] ↔ region.id = "forth" := by
    decide +kernel
  rw [← ordered region member (once region member), silent region member]

end Partition

end Orchestration
