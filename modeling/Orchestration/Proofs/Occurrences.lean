import Mathlib.Data.List.Sort
import Mathlib.Data.String.Basic
import Orchestration.Partition.Review

/-! Where nodes are listed. A review keeps what it meets in maps: for the nodes of a graph the entries that list
them, for the nodes of a region the first batch that does. The maps hold what the listings themselves say. -/

set_option autoImplicit false

namespace Orchestration

/-- Where the stored values are those of a function, a map lists its keys with them. -/
theorem toList_eq_map_keys {Value : Type} (entries : Std.TreeMap String Value) (value : String → Value)
    (stored : ∀ (key : String) (found : Value), entries[key]? = some found → found = value key) :
    entries.toList = entries.keys.map fun key => (key, value key) := by
  rw [← Std.TreeMap.map_fst_toList_eq_keys, List.map_map]
  refine (List.map_id _).symm.trans (List.map_congr_left fun entry member => ?_)
  exact Prod.ext rfl (stored _ _ (Std.TreeMap.mem_toList_iff_getElem?_eq_some.1 member))

namespace Ids

theorem keys_tally (ids : List String) : (tally ids).keys = ascending ids := by
  refine (pairwise_keys _).eq_of_mem_iff (pairwise_ascending ids) fun id => ?_
  rw [Std.TreeMap.mem_keys, ← Std.TreeMap.isSome_getElem?_iff_mem, getElem?_tally, mem_ascending]
  by_cases listed : id ∈ ids <;> simp [listed]

theorem repeated_eq (ids : List String) :
    repeated ids = ((ascending ids).filter fun id => 1 < ids.count id).map fun id => (id, ids.count id) := by
  have counted : ∀ (id : String) (uses : Nat), (tally ids)[id]? = some uses → uses = ids.count id := by
    intro id uses found
    rw [getElem?_tally] at found
    split at found <;> simp_all
  rw [repeated, toList_eq_map_keys _ _ counted, keys_tally, List.filter_map]
  rfl

end Ids

namespace Partition

/-- The ids of the entries that list a node, once for every listing. -/
def owners (partition : Partition) (node : String) : List String :=
  (partition.listings.filter (·.node = node)).map (·.entry.id)

variable {graph : Graph} {partition : Partition} {node : String}

theorem unknown_foldl_record (listings : List Listing) (roll : Roll) :
    (listings.foldl (Roll.record graph) roll).unknown =
      roll.unknown ++ (listings.filter (!graph.contains ·.node)).map .unknownNode := by
  induction listings generalizing roll with
  | nil => simp
  | cons listing rest ih =>
    rw [List.foldl_cons, ih, Roll.record]
    by_cases known : graph.contains listing.node = true <;> simp [known]

theorem getD_foldl_record (listings : List Listing) (roll : Roll) (known : graph.contains node = true) :
    (listings.foldl (Roll.record graph) roll).occurrences.getD node [] =
      roll.occurrences.getD node [] ++ (listings.filter (·.node = node)).map (·.entry.id) := by
  induction listings generalizing roll with
  | nil => simp
  | cons listing rest ih =>
    rw [List.foldl_cons, ih, Roll.record]
    by_cases same : listing.node = node
    · subst same
      simp [known, Adjacency.getD_push]
    · by_cases listed : graph.contains listing.node = true <;>
        simp [listed, Adjacency.getD_push, same, Ne.symm same]

theorem mem_foldl_record (listings : List Listing) (roll : Roll) :
    node ∈ (listings.foldl (Roll.record graph) roll).occurrences ↔
      node ∈ roll.occurrences ∨ node ∈ (listings.map Listing.node).filter graph.contains := by
  induction listings generalizing roll with
  | nil => simp
  | cons listing rest ih =>
    rw [List.foldl_cons, ih, Roll.record]
    by_cases known : graph.contains listing.node = true
    · simp only [known, if_true, Adjacency.push, Std.TreeMap.mem_insert, Std.LawfulEqCmp.compare_eq_iff_eq,
        List.map_cons, List.filter_cons_of_pos, List.mem_cons, @eq_comm String node, or_assoc, or_left_comm]
    · simp [known]

theorem mem_occurrences :
    node ∈ (partition.roll graph).occurrences ↔ node ∈ partition.listed.filter graph.contains := by
  simp [roll, mem_foldl_record, listed]

/-- The nodes of the graph that are listed stand there in ascending order, each with its owners. -/
theorem toList_occurrences (graph : Graph) (partition : Partition) :
    (partition.roll graph).occurrences.toList =
      (Ids.ascending (partition.listed.filter graph.contains)).map fun node => (node, partition.owners node) := by
  have keys : (partition.roll graph).occurrences.keys =
      Ids.ascending (partition.listed.filter graph.contains) := by
    refine (pairwise_keys _).eq_of_mem_iff (Ids.pairwise_ascending _) fun node => ?_
    rw [Std.TreeMap.mem_keys, mem_occurrences, Ids.mem_ascending]
  rw [← keys]
  apply toList_eq_map_keys
  intro node owners found
  have listed := mem_occurrences.1 (Std.TreeMap.isSome_getElem?_iff_mem.1 (Option.isSome_of_eq_some found))
  have recorded := getD_foldl_record partition.listings {} (List.mem_filter.1 listed).2
  rw [Std.TreeMap.getD_eq_getD_getElem?] at recorded
  exact (congrArg (·.getD []) found).symm.trans recorded

theorem length_owners (partition : Partition) (node : String) :
    (partition.owners node).length = partition.listed.count node := by
  rw [owners, List.length_map, listed, List.count, List.countP_map, List.countP_eq_length_filter]
  simp [Function.comp_def, beq_eq_decide]

theorem unknownIssues_eq :
    unknownIssues graph partition = (partition.listings.filter (!graph.contains ·.node)).map .unknownNode := by
  rw [unknownIssues, roll, unknown_foldl_record, List.nil_append]

theorem repeatedNodeIssues_eq :
    repeatedNodeIssues graph partition =
      (Ids.repeated (partition.listed.filter graph.contains)).map fun entry =>
        .repeatedNode entry.1 (partition.owners entry.1) := by
  rw [repeatedNodeIssues, toList_occurrences, Ids.repeated_eq, List.filter_map, List.map_map, List.map_map]
  congr 1
  apply List.filter_congr
  intro node member
  have known := (List.mem_filter.1 (Ids.mem_ascending.1 member)).2
  rw [List.count_filter known, ← length_owners]
  rfl

theorem uncoveredIssues_eq :
    uncoveredIssues graph partition = (graph.nodes.keys.filter (· ∉ partition.listed)).map .uncovered := by
  rw [uncoveredIssues]
  congr 1
  apply List.filter_congr
  intro key member
  have known := Graph.mem_keys.1 member
  have covered : (partition.roll graph).occurrences.contains key = true ↔ key ∈ partition.listed := by
    rw [Std.TreeMap.contains_iff_mem, mem_occurrences, List.mem_filter, known, and_iff_left rfl]
  rw [decide_not, Bool.eq_iff_iff.2 (covered.trans decide_eq_true_iff.symm)]

end Partition

namespace Region

theorem getElem?_foldl_numbered (batches : List (List String × Nat)) (numbers : Std.TreeMap String Nat)
    (node : String) :
    (batches.foldl (fun numbers entry => entry.1.foldl (·.insertIfNew · entry.2) numbers) numbers)[node]? =
      numbers[node]?.or ((batches.find? fun entry => node ∈ entry.1).map Prod.snd) := by
  induction batches generalizing numbers with
  | nil => simp
  | cons entry rest ih =>
    rw [List.foldl_cons, ih, getElem?_foldl_insertIfNew, List.find?_cons]
    by_cases first : node ∈ entry.1 <;> simp [first]

/-- The number found for a node is that of the first batch that lists it. -/
theorem batchOf?_eq_find? (region : Region) (node : String) :
    region.batchOf? node = (region.numbered.find? fun entry => node ∈ entry.1).map Prod.snd := by
  rw [batchOf?, batchNumbers, getElem?_foldl_numbered]
  exact Option.none_or

end Region

end Orchestration
