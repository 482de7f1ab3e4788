import Orchestration.Proofs.Release

/-! Who waits for whom. One pass over the nodes, and over the prerequisites of each, enters both the counters
with which a release starts and the dependents that a round tells. Every wait is entered once on either side. -/

set_option autoImplicit false

namespace Orchestration

/-- Who waits for whom: for every node on how many it waits, and for every id the nodes that wait for it. -/
structure Waits where
  blockers : Std.TreeMap String Nat := ∅
  dependents : Adjacency := ∅

namespace Waits

def add (key : String) (waits : Waits) (dependency : String) : Waits where
  blockers := waits.blockers.insert key (waits.blockers.getD key 0 + 1)
  dependents := waits.dependents.push dependency key

def enter (graph : Graph) (waits : Waits) (entry : String × Node) : Waits :=
  (graph.prerequisites entry.2).foldl (add entry.1)
    { waits with blockers := waits.blockers.insert entry.1 0 }

def ofGraph (graph : Graph) : Waits :=
  graph.nodes.toList.foldl (enter graph) {}

variable {graph : Graph}

theorem getElem?_blockers_foldl_add (ids : List String) {key : String} {count : Nat} {waits : Waits}
    (counted : waits.blockers[key]? = some count) (other : String) :
    (ids.foldl (add key) waits).blockers[other]? =
      if other = key then some (count + ids.length) else waits.blockers[other]? := by
  induction ids generalizing waits count with
  | nil => by_cases same : other = key <;> simp [same, counted]
  | cons id rest ih =>
    have more : (waits.add key id).blockers[key]? = some (count + 1) := by
      simp [add, Std.TreeMap.getD_eq_getD_getElem?, counted]
    rw [List.foldl_cons, ih more]
    by_cases same : other = key
    · simp [same, Nat.add_assoc, Nat.add_comm 1]
    · simp [same, add, Std.TreeMap.getElem?_insert, Ne.symm same]

theorem getD_dependents_foldl_add {ids : List String} (distinct : ids.Nodup) (key : String) (waits : Waits)
    (id : String) :
    (ids.foldl (add key) waits).dependents.getD id [] =
      waits.dependents.getD id [] ++ if id ∈ ids then [key] else [] := by
  induction ids generalizing waits with
  | nil => simp
  | cons other rest ih =>
    obtain ⟨fresh, distinct⟩ := List.nodup_cons.1 distinct
    rw [List.foldl_cons, ih distinct, add, Adjacency.getD_push]
    by_cases same : id = other
    · subst same
      simp [fresh]
    · simp [same]

theorem getElem?_blockers_enter (waits : Waits) (entry : String × Node) (key : String) :
    (enter graph waits entry).blockers[key]? =
      if key = entry.1 then some (graph.prerequisites entry.2).length else waits.blockers[key]? := by
  have zero : (waits.blockers.insert entry.1 0)[entry.1]? = some 0 := Std.TreeMap.getElem?_insert_self
  rw [enter, getElem?_blockers_foldl_add _ zero, Nat.zero_add]
  by_cases same : key = entry.1
  · rw [if_pos same, if_pos same]
  · simp [same, Std.TreeMap.getElem?_insert, Ne.symm same]

theorem getElem?_blockers_foldl_enter_of_not_mem {entries : List (String × Node)} {key : String}
    (absent : key ∉ entries.map Prod.fst) (waits : Waits) :
    (entries.foldl (enter graph) waits).blockers[key]? = waits.blockers[key]? := by
  induction entries generalizing waits with
  | nil => rfl
  | cons entry rest ih =>
    rw [List.map_cons, List.mem_cons, not_or] at absent
    rw [List.foldl_cons, ih absent.2, getElem?_blockers_enter, if_neg absent.1]

theorem getElem?_blockers_foldl_enter_of_mem {entries : List (String × Node)}
    (distinct : (entries.map Prod.fst).Nodup) {entry : String × Node} (member : entry ∈ entries) (waits : Waits) :
    (entries.foldl (enter graph) waits).blockers[entry.1]? = some (graph.prerequisites entry.2).length := by
  induction entries generalizing waits with
  | nil => cases member
  | cons first rest ih =>
    obtain ⟨fresh, distinct⟩ := List.nodup_cons.1 distinct
    rw [List.foldl_cons]
    rcases List.mem_cons.1 member with rfl | later
    · rw [getElem?_blockers_foldl_enter_of_not_mem fresh, getElem?_blockers_enter, if_pos rfl]
    · exact ih distinct later _

theorem getD_dependents_foldl_enter (entries : List (String × Node)) (waits : Waits) (id : String) :
    (entries.foldl (enter graph) waits).dependents.getD id [] =
      waits.dependents.getD id [] ++
        (entries.filter fun entry => id ∈ graph.prerequisites entry.2).map Prod.fst := by
  induction entries generalizing waits with
  | nil => simp
  | cons entry rest ih =>
    rw [List.foldl_cons, ih, enter, getD_dependents_foldl_add (graph.nodup_prerequisites entry.2)]
    by_cases waiting : id ∈ graph.prerequisites entry.2 <;> simp [waiting]

theorem getElem?_blockers_ofGraph (graph : Graph) (key : String) :
    (ofGraph graph).blockers[key]? = (Release.start graph).blockers[key]? := by
  rw [Release.start, Std.TreeMap.getElem?_map]
  cases found : graph.nodes[key]? with
  | none =>
    have absent : key ∉ graph.nodes.toList.map Prod.fst := by
      rw [Std.TreeMap.map_fst_toList_eq_keys, Graph.mem_keys, Graph.contains_iff]
      rintro ⟨node, stored⟩
      cases found.symm.trans stored
    rw [ofGraph, getElem?_blockers_foldl_enter_of_not_mem absent]
    rfl
  | some node =>
    have member : (key, node) ∈ graph.nodes.toList := Std.TreeMap.mem_toList_iff_getElem?_eq_some.2 found
    exact getElem?_blockers_foldl_enter_of_mem (nodup_map_fst_toList _) member {}

theorem getD_dependents_ofGraph {id : String} (known : graph.contains id = true) :
    (ofGraph graph).dependents.getD id [] = graph.nodes.dependents id := by
  rw [ofGraph, getD_dependents_foldl_enter, NodeMap.dependents]
  simp [Node.dependsOn, Graph.mem_prerequisites, known]

end Waits

end Orchestration
