import Mathlib.Logic.Relation
import Orchestration.Proofs.Accounting
import Orchestration.Proofs.Cycles
import Orchestration.Proofs.Rearranged

/-! Graphs and partitions that correspond: one comes from the other by giving the nodes new names and by moving
chains, regions, the nodes of a batch and declared joins. A review counts the same findings for both. -/

set_option autoImplicit false

namespace Orchestration

open Relation

def Node.rename (names : String → String) (node : Node) : Node :=
  { node with id := names node.id, deps := node.deps.map names }

structure Graph.Matches (names : String → String) (graph other : Graph) : Prop where
  nodes : (graph.nodes.toList.map fun entry => (names entry.1, entry.2.rename names)).Perm other.nodes.toList
  adjacency : ∀ direction, ((graph.adjacency direction).toList.map fun entry =>
    (names entry.1, entry.2.map names)).Perm (other.adjacency direction).toList
  sinks : other.sinks = graph.sinks.map names

def Chain.rename (names : String → String) (chain : Chain) : Chain :=
  { chain with path := chain.path.map names }

structure Region.Matches (names : String → String) (region other : Region) : Prop where
  id : other.id = region.id
  batches : List.Forall₂ (fun batch nodes => (batch.map names).Perm nodes) region.batches other.batches
  joins : ∀ node, node ∈ other.joins ↔ node ∈ region.joins.map names

structure Partition.Matches (names : String → String) (partition other : Partition) : Prop where
  chains : Rearranged (fun chain other => other = chain.rename names) partition.chains other.chains
  regions : Rearranged (Region.Matches names) partition.regions other.regions

variable {names : String → String} {settings : Settings}

theorem Graph.Matches.refl (graph : Graph) : graph.Matches id graph := by
  have same : ∀ node : Node, node.rename id = node := by simp [Node.rename]
  exact ⟨by simp [same], by simp, by simp⟩

namespace Region

theorem perm_flatten {batches others : List (List String)}
    (pairs : List.Forall₂ (fun batch nodes => (batch.map names).Perm nodes) batches others) :
    (batches.flatten.map names).Perm others.flatten := by
  induction pairs with
  | nil => exact List.Perm.refl []
  | cons related _ ih =>
    rw [List.flatten_cons, List.flatten_cons, List.map_append]
    exact related.append ih

theorem perm_getLastD {batches others : List (List String)}
    (pairs : List.Forall₂ (fun batch nodes => (batch.map names).Perm nodes) batches others) :
    ((batches.getLastD []).map names).Perm (others.getLastD []) := by
  induction pairs with
  | nil => exact List.Perm.refl []
  | cons related rest ih =>
    cases rest with
    | nil => exact related
    | cons => simpa using ih

theorem forall₂_zipIdx {α β : Type} {related : α → β → Prop} {first : List α} {second : List β}
    (pairs : List.Forall₂ related first second) (start : Nat) :
    List.Forall₂ (fun entry changed => related entry.1 changed.1 ∧ changed.2 = entry.2)
      (first.zipIdx start) (second.zipIdx start) := by
  induction pairs generalizing start with
  | nil => exact .nil
  | cons related _ ih => exact .cons ⟨related, rfl⟩ (ih (start + 1))

namespace Matches

variable {region other : Region} (corresponds : region.Matches names other)
include corresponds

theorem numbered : List.Forall₂ (fun entry changed =>
    (entry.1.map names).Perm changed.1 ∧ changed.2 = entry.2) region.numbered other.numbered :=
  forall₂_zipIdx corresponds.batches 1

theorem batches_eq_nil_iff : other.batches = [] ↔ region.batches = [] := by
  have lengths := corresponds.batches.length_eq
  rw [← List.length_eq_zero_iff, ← List.length_eq_zero_iff, lengths]

theorem joins_eq_nil_iff : other.joins = [] ↔ region.joins = [] := by
  have members := corresponds.joins
  calc other.joins = [] ↔ region.joins.map names = [] := by
        simp only [List.eq_nil_iff_forall_not_mem, members]
    _ ↔ region.joins = [] := List.map_eq_nil_iff

end Matches

end Region

namespace Graph.Matches

variable {graph other : Graph} (corresponds : graph.Matches names other)
include corresponds

theorem perm_keys : (graph.nodes.keys.map names).Perm other.nodes.keys := by
  have keys := corresponds.nodes.map Prod.fst
  rw [← Std.TreeMap.map_fst_toList_eq_keys, ← Std.TreeMap.map_fst_toList_eq_keys, List.map_map]
  rwa [List.map_map] at keys

/-- Only nodes that have a new name are in the other graph. -/
theorem exists_name {key : String} (known : other.contains key = true) : ∃ name, names name = key := by
  have member := corresponds.perm_keys.mem_iff.2 (mem_keys.2 known)
  obtain ⟨name, _, same⟩ := List.mem_map.1 member
  exact ⟨name, same⟩

variable (injective : Function.Injective names)
include injective

theorem contains_names (key : String) : other.contains (names key) = graph.contains key := by
  rw [Bool.eq_iff_iff, ← mem_keys, ← mem_keys, ← corresponds.perm_keys.mem_iff,
    List.mem_map_of_injective injective]

theorem find?_names (key : String) : other.find? (names key) = (graph.find? key).map (Node.rename names) := by
  apply Option.ext
  intro node
  rw [find?, ← Std.TreeMap.mem_toList_iff_getElem?_eq_some, ← corresponds.nodes.mem_iff, find?,
    Option.map_eq_some_iff]
  simp only [List.mem_map, Prod.mk.injEq, Prod.exists, Std.TreeMap.mem_toList_iff_getElem?_eq_some]
  constructor
  · rintro ⟨stored, found, member, same, rfl⟩
    exact ⟨found, injective same ▸ member, rfl⟩
  · rintro ⟨found, member, rfl⟩
    exact ⟨key, found, member, rfl, rfl⟩

theorem dependsOn_names {key dependency : String} :
    other.DependsOn (names key) (names dependency) ↔ graph.DependsOn key dependency := by
  simp only [DependsOn, corresponds.find?_names injective, corresponds.contains_names injective,
    Option.map_eq_some_iff]
  constructor
  · rintro ⟨_, ⟨node, found, rfl⟩, lists, known⟩
    exact ⟨node, found, (List.mem_map_of_injective injective).1 lists, known⟩
  · rintro ⟨node, found, lists, known⟩
    exact ⟨_, ⟨node, found, rfl⟩, List.mem_map_of_mem lists, known⟩

theorem transGen_names {key dependency : String} :
    TransGen other.DependsOn (names key) (names dependency) ↔ TransGen graph.DependsOn key dependency := by
  constructor
  · intro path
    generalize ends : names dependency = goal at path
    induction path generalizing dependency with
    | single depends =>
      subst ends
      exact .single ((corresponds.dependsOn_names injective).1 depends)
    | tail _ last ih =>
      subst ends
      obtain ⟨middle, rfl⟩ := corresponds.exists_name last.contains_left
      exact (ih rfl).tail ((corresponds.dependsOn_names injective).1 last)
  · intro path
    induction path with
    | single depends => exact .single ((corresponds.dependsOn_names injective).2 depends)
    | tail _ last ih => exact ih.tail ((corresponds.dependsOn_names injective).2 last)

theorem acyclic_iff : other.Acyclic ↔ graph.Acyclic := by
  constructor
  · intro acyclic key cycle
    exact acyclic (names key) ((corresponds.transGen_names injective).2 cycle)
  · intro acyclic key cycle
    obtain ⟨next, first, _⟩ := TransGen.head'_iff.1 cycle
    obtain ⟨name, rfl⟩ := corresponds.exists_name first.contains_left
    exact acyclic name ((corresponds.transGen_names injective).1 cycle)

end Graph.Matches

namespace Ids

variable {ids others : List String} (perm : (ids.map names).Perm others) (injective : Function.Injective names)
include perm injective

theorem perm_ascending : ((ascending ids).map names).Perm (ascending others) := by
  apply (List.perm_ext_iff_of_nodup ((nodup_ascending ids).map injective) (nodup_ascending others)).2
  intro id
  rw [mem_ascending, ← perm.mem_iff, List.mem_map, List.mem_map]
  simp only [mem_ascending]

/-- As many ids are used more than once under the new names. -/
theorem length_repeated : (repeated ids).length = (repeated others).length := by
  rw [repeated_eq, repeated_eq, List.length_map, List.length_map]
  apply length_filter_of_map_perm (perm_ascending perm injective)
  intro id
  rw [← perm.count_eq, List.count_map_of_injective ids names injective]

end Ids

namespace Partition

variable {graph other : Graph} {partition moved : Partition}

theorem Matches.perm_listed (corresponds : partition.Matches names moved) :
    (partition.listed.map names).Perm moved.listed := by
  rw [listed_eq, listed_eq, List.map_append, List.map_flatMap, List.map_flatMap]
  apply List.Perm.append
  · refine corresponds.chains.flatMap_perm fun chain other same => ?_
    rw [same]
    exact List.Perm.refl _
  · exact corresponds.regions.flatMap_perm fun region other same => Region.perm_flatten same.batches

section

variable (graphs : graph.Matches names other) (injective : Function.Injective names)
include graphs injective

theorem alike_dangling {site there : Site} {ids others : List String} (perm : (ids.map names).Perm others) :
    Alike settings (dangling graph site ids) (dangling other there others) := by
  apply alike_map (some .error, .danglingReference) (fun _ => rfl) (fun _ => rfl)
  apply length_filter_of_map_perm perm
  intro id
  rw [graphs.contains_names injective]

theorem alike_nodeIssues (key : String) (node : Node) :
    Alike settings (nodeIssues graph key node) (nodeIssues other (names key) (node.rename names)) := by
  apply Alike.append
  · have same : (node.rename names).id = names key ↔ node.id = key := injective.eq_iff
    by_cases own : node.id = key
    · rw [if_pos own, if_pos (same.2 own)]
      exact List.Perm.refl []
    · rw [if_neg own, if_neg (mt same.1 own)]
      exact List.Perm.refl [(some Severity.error, Category.keyMismatch)]
  · exact alike_dangling graphs injective (List.Perm.refl _)

theorem alike_adjacencyIssues (direction : Direction) :
    Alike settings (adjacencyIssues graph direction) (adjacencyIssues other direction) := by
  refine alike_flatMap (fun entry changed same => ?_)
    (Rearranged.of_map_perm (graphs.adjacency direction))
  subst same
  exact (alike_dangling graphs injective (List.Perm.refl _)).append
    (alike_dangling graphs injective (List.Perm.refl _))

theorem alike_referenceIssues : Alike settings (referenceIssues graph) (referenceIssues other) := by
  refine (((alike_flatMap (fun entry changed same => ?_) (Rearranged.of_map_perm graphs.nodes)).append
    (alike_adjacencyIssues graphs injective .forward)).append
    (alike_adjacencyIssues graphs injective .reverse)).append ?_
  · subst same
    exact alike_nodeIssues graphs injective entry.1 entry.2
  · rw [graphs.sinks]
    exact alike_dangling graphs injective (List.Perm.refl _)

theorem alike_cycleIssues : Alike settings (cycleIssues graph) (cycleIssues other) := by
  have same := graphs.acyclic_iff injective
  rcases graph.cycle?_eq with ⟨acyclic, found⟩ | ⟨cyclic, found⟩
  · have none : other.cycle? = none := Graph.cycle?_eq_none_iff.2 (same.2 acyclic)
    rw [cycleIssues, cycleIssues, found, none]
    exact List.Perm.refl []
  · have some := other.cycle?_eq.resolve_left fun quiet => cyclic (same.1 quiet.1)
    rw [cycleIssues, cycleIssues, found, some.2]
    exact List.Perm.refl [(Option.some Severity.error, Category.cycle)]

variable (corresponds : partition.Matches names moved)
include corresponds

theorem alike_unknownIssues : Alike settings (unknownIssues graph partition) (unknownIssues other moved) := by
  rw [unknownIssues_eq, unknownIssues_eq]
  apply alike_map (some .error, .unknownNode) (fun _ => rfl) (fun _ => rfl)
  have unknown : ∀ (graph : Graph) (partition : Partition),
      (partition.listings.filter (!graph.contains ·.node)).length =
        (partition.listed.filter (!graph.contains ·)).length := by
    intro graph partition
    rw [listed, List.filter_map, List.length_map]
    rfl
  rw [unknown, unknown]
  apply length_filter_of_map_perm corresponds.perm_listed
  intro id
  rw [graphs.contains_names injective]

theorem alike_repeatedNodeIssues :
    Alike settings (repeatedNodeIssues graph partition) (repeatedNodeIssues other moved) := by
  rw [repeatedNodeIssues_eq, repeatedNodeIssues_eq]
  apply alike_map (some .error, .duplicateNode) (fun _ => rfl) (fun _ => rfl)
  have known := perm_filter_of_map_perm corresponds.perm_listed (graphs.contains_names injective)
  exact Ids.length_repeated known injective

theorem alike_uncoveredIssues :
    Alike settings (uncoveredIssues graph partition) (uncoveredIssues other moved) := by
  rw [uncoveredIssues_eq, uncoveredIssues_eq]
  apply alike_map (some (if settings.fullCoverage then .error else .warning), .missingNode)
    (fun _ => rfl) (fun _ => rfl)
  apply length_filter_of_map_perm graphs.perm_keys
  intro id
  simp only [mem_of_map_perm corresponds.perm_listed injective]

omit corresponds in
theorem chainOrderIssue?_names (chain : Chain) (previous current : String) :
    (chainOrderIssue? graph chain previous current).map (Issue.mark settings) =
      (chainOrderIssue? other (chain.rename names) (names previous) (names current)).map
        (Issue.mark settings) := by
  unfold chainOrderIssue?
  rw [graphs.find?_names injective, graphs.find?_names injective]
  cases graph.find? previous with
  | none => rfl
  | some before =>
    cases graph.find? current with
    | none => rfl
    | some after =>
      have same : (after.rename names).dependsOn (before.rename names).id = after.dependsOn before.id :=
        decide_eq_decide.2 (List.mem_map_of_injective injective)
      simp only [Option.map_some, same]
      cases after.dependsOn before.id <;> rfl

omit corresponds in
theorem alike_chainOrderIssues (chain : Chain) :
    Alike settings (chainOrderIssues graph chain) (chainOrderIssues other (chain.rename names)) := by
  have pairs : Rearranged (fun pair changed => changed = Prod.map names names pair)
      (chain.path.zip chain.path.tail) ((chain.rename names).path.zip (chain.rename names).path.tail) := by
    apply Rearranged.of_map_perm
    rw [← List.zip_map, List.map_tail]
    exact List.Perm.refl _
  refine alike_filterMap (fun pair changed same => ?_) pairs
  subst same
  exact chainOrderIssue?_names graphs injective chain pair.1 pair.2

omit graphs corresponds in
theorem batchOf?_names {region changed : Region} (same : region.Matches names changed) (node : String) :
    changed.batchOf? (names node) = region.batchOf? node := by
  have pairs := same.numbered
  rw [Region.batchOf?_eq_find?, Region.batchOf?_eq_find?]
  generalize region.numbered = batches at pairs ⊢
  generalize changed.numbered = others at pairs ⊢
  induction pairs with
  | nil => rfl
  | cons related _ ih =>
    obtain ⟨nodes, number⟩ := related
    rw [List.find?_cons, List.find?_cons]
    simp only [mem_of_map_perm nodes injective]
    split
    · rw [Option.map_some, Option.map_some, number]
    · exact ih

omit graphs corresponds in
theorem batchOrderIssue?_names {region changed : Region} (same : region.Matches names changed) (batch : Nat)
    (node dependency : String) :
    (batchOrderIssue? region batch node dependency).map (Issue.mark settings) =
      (batchOrderIssue? changed batch (names node) (names dependency)).map (Issue.mark settings) := by
  unfold batchOrderIssue?
  rw [batchOf?_names injective same]
  cases region.batchOf? dependency with
  | none => rfl
  | some first =>
    by_cases earlier : first < batch
    · simp [earlier]
    · simp only [earlier, if_false]
      rfl

omit corresponds in
theorem alike_batchOrderIssues {region changed : Region} (same : region.Matches names changed) :
    Alike settings (batchOrderIssues graph region) (batchOrderIssues other changed) := by
  have batches := same.numbered
  refine alike_flatMap (fun entry renamed batch => ?_) ⟨_, batches, List.Perm.refl _⟩
  obtain ⟨nodes, number⟩ := batch
  refine alike_flatMap (fun node key named => ?_) (Rearranged.of_map_perm nodes)
  subst named
  rw [graphs.find?_names injective, number]
  cases graph.find? node with
  | none => exact List.Perm.refl []
  | some found =>
    refine alike_filterMap (fun dependency key named => ?_)
      (Rearranged.of_map_perm (List.Perm.refl (found.deps.map names)))
    subst named
    exact batchOrderIssue?_names injective same entry.2 node dependency

omit graphs corresponds in
theorem joinIssue?_names {region changed : Region} (same : region.Matches names changed) :
    (joinIssue? region).map (Issue.mark settings) = (joinIssue? changed).map (Issue.mark settings) := by
  have last := Region.perm_getLastD same.batches
  have silent : joinIssue? changed = none ↔ joinIssue? region = none := by
    rw [joinIssue?_eq_none_iff, joinIssue?_eq_none_iff, Ne, Ne, same.joins_eq_nil_iff]
    apply imp_congr_right
    intro _
    constructor
    · intro equal node
      have declared := (same.joins (names node)).trans (List.mem_map_of_injective injective)
      exact declared.symm.trans ((equal (names node)).trans (mem_of_map_perm last injective))
    · intro equal node
      rw [same.joins, Region.lastBatch, ← last.mem_iff, List.mem_map, List.mem_map]
      simp only [equal, Region.lastBatch]
  cases first : joinIssue? region with
  | none => rw [silent.2 first]
  | some issue =>
    cases second : joinIssue? changed with
    | none => simp [silent.1 second] at first
    | some other =>
      rw [joinIssue?_eq_some first, joinIssue?_eq_some second]
      rfl

omit graphs injective in
theorem alike_entryIssues : Alike settings (entryIssues partition) (entryIssues moved) := by
  have chains : ((partition.chains.map Chain.id).map id).Perm (moved.chains.map Chain.id) := by
    rw [List.map_id]
    exact corresponds.chains.map_perm fun chain other same => by rw [same, Chain.rename]
  have regions : ((partition.regions.map Region.id).map id).Perm (moved.regions.map Region.id) := by
    rw [List.map_id]
    exact corresponds.regions.map_perm fun region other same => same.id.symm
  apply Alike.append
  · apply alike_map (some .warning, .duplicatePartitionId) (fun _ => rfl) (fun _ => rfl)
    exact Ids.length_repeated chains Function.injective_id
  · apply alike_map (some .error, .duplicatePartitionId) (fun _ => rfl) (fun _ => rfl)
    exact Ids.length_repeated regions Function.injective_id

omit graphs injective corresponds in
theorem emptyChainIssue?_names (chain : Chain) :
    (emptyChainIssue? chain).map (Issue.mark settings) =
      (emptyChainIssue? (chain.rename names)).map (Issue.mark settings) := by
  have empty : (chain.rename names).path = [] ↔ chain.path = [] := List.map_eq_nil_iff
  simp only [emptyChainIssue?, empty]
  split <;> rfl

omit graphs injective corresponds in
theorem alike_emptyBatchIssues {region changed : Region} (same : region.Matches names changed) :
    Alike settings (emptyBatchIssues region) (emptyBatchIssues changed) := by
  simp only [emptyBatchIssues, same.batches_eq_nil_iff]
  split
  · exact List.Perm.refl [(some Severity.warning, Category.emptyPartitionEntry)]
  · apply alike_map (some .warning, .emptyPartitionEntry) (fun _ => rfl) (fun _ => rfl)
    rw [← List.countP_eq_length_filter, ← List.countP_eq_length_filter]
    refine Rearranged.countP_eq (fun entry renamed batch => ?_) ⟨_, same.numbered, List.Perm.refl _⟩
    rw [Bool.eq_iff_iff, List.isEmpty_iff_length_eq_zero, List.isEmpty_iff_length_eq_zero, ← batch.1.length_eq,
      List.length_map]

theorem alike_issues : Alike settings (issues graph partition) (issues other moved) := by
  have joins : Alike settings (partition.regions.filterMap joinIssue?) (moved.regions.filterMap joinIssue?) :=
    alike_filterMap (fun _ _ same => joinIssue?_names injective same) corresponds.regions
  have chainOrder : Alike settings (partition.chains.flatMap (chainOrderIssues graph))
      (moved.chains.flatMap (chainOrderIssues other)) := by
    refine alike_flatMap (fun chain changed same => ?_) corresponds.chains
    rw [same]
    exact alike_chainOrderIssues graphs injective chain
  have batchOrder : Alike settings (partition.regions.flatMap (batchOrderIssues graph))
      (moved.regions.flatMap (batchOrderIssues other)) :=
    alike_flatMap (fun _ _ same => alike_batchOrderIssues graphs injective same) corresponds.regions
  have emptyChains : Alike settings (partition.chains.filterMap emptyChainIssue?)
      (moved.chains.filterMap emptyChainIssue?) := by
    refine alike_filterMap (fun chain changed same => ?_) corresponds.chains
    rw [same]
    exact emptyChainIssue?_names chain
  have emptyBatches : Alike settings (partition.regions.flatMap emptyBatchIssues)
      (moved.regions.flatMap emptyBatchIssues) :=
    alike_flatMap (fun _ _ same => alike_emptyBatchIssues same) corresponds.regions
  exact (alike_referenceIssues graphs injective)
    |>.append (alike_cycleIssues graphs injective)
    |>.append (alike_unknownIssues graphs injective corresponds)
    |>.append (alike_repeatedNodeIssues graphs injective corresponds)
    |>.append (alike_uncoveredIssues graphs injective corresponds)
    |>.append (alike_entryIssues corresponds)
    |>.append joins |>.append chainOrder |>.append batchOrder |>.append emptyChains |>.append emptyBatches

/-- Reviews of corresponding graphs and partitions find as much of everything. -/
theorem sameCounts_review_of_matches : (partition.review settings graph).SameCounts
    (moved.review settings other) :=
  (alike_issues graphs injective corresponds).sameCounts

end

end Partition

end Orchestration
