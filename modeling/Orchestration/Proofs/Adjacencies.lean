import Mathlib.Data.List.Nodup
import Orchestration.Graph.Assembly

/-! What the pass that fills the adjacencies leaves in them. While it runs, they record exactly the dependencies
it has come to; after it, every node stands in both with what its place in the graph calls for. -/

set_option autoImplicit false

namespace Orchestration

theorem eraseDups_concat (ids : List String) (id : String) :
    (ids ++ [id]).eraseDups = if id ∈ ids then ids.eraseDups else ids.eraseDups ++ [id] := by
  rw [List.eraseDups_append]
  by_cases old : id ∈ ids <;> simp [List.removeAll, old, List.eraseDups_cons]

namespace Edges

def users (seen : List (String × List String)) (id : String) : List String :=
  (seen.filter (id ∈ ·.2)).map Prod.fst

theorem users_concat (seen : List (String × List String)) (id : String) (ids : List String) (key : String) :
    users (seen ++ [(id, ids)]) key = users seen key ++ if key ∈ ids then [id] else [] := by
  by_cases member : key ∈ ids <;> simp [users, member]

/-- The adjacencies of some nodes when the pass has come to some of them, and to some dependencies of each. -/
structure Records (nodes : NodeMap) (seen : List (String × List String)) (edges : Edges) : Prop where
  dependents : ∀ key, edges.forward[key]? = nodes[key]?.map fun _ => users seen key
  dependencies : ∀ key, edges.reverse[key]? = nodes[key]?.map fun _ => ((seen.lookup key).getD []).eraseDups

theorem foldl_place (ids : List String) (edges : Edges) :
    ids.foldl place edges =
      ⟨ids.foldl (·.insertIfNew · []) edges.forward, ids.foldl (·.insertIfNew · []) edges.reverse⟩ := by
  induction ids generalizing edges with
  | nil => rfl
  | cons id rest ih => exact ih (edges.place id)

variable {nodes : NodeMap} {seen : List (String × List String)} {edges : Edges} {id : String}
  {past : List String}

theorem records_nil (nodes : NodeMap) : Records nodes [] (nodes.keys.foldl place {}) := by
  have placed (key : String) : (nodes.keys.foldl (·.insertIfNew · []) (∅ : Adjacency))[key]? =
      nodes[key]?.map fun _ => [] := by
    rw [getElem?_foldl_insertIfNew]
    cases found : nodes[key]? <;>
      simp [Std.TreeMap.mem_keys, ← Std.TreeMap.isSome_getElem?_iff_mem, found]
  rw [foldl_place]
  exact ⟨placed, placed⟩

section

variable (fresh : id ∉ seen.map Prod.fst)
include fresh

theorem lookup_eq_none : seen.lookup id = none := by
  rw [List.lookup_eq_none_iff]
  intro entry member
  exact bne_iff_ne.2 fun here => fresh (here ▸ List.mem_map_of_mem member)

theorem lookup_concat (past : List String) (key : String) :
    (seen ++ [(id, past)]).lookup key = if key = id then some past else seen.lookup key := by
  rw [List.lookup_append]
  by_cases same : key = id
  · subst same
    simp [lookup_eq_none fresh]
  · simp [same, beq_false_of_ne same, List.lookup_cons]

/-- The pass comes to another node. -/
theorem Records.visit (records : Records nodes seen edges) : Records nodes (seen ++ [(id, [])]) edges := by
  constructor
  · intro key
    rw [records.dependents key, users_concat, if_neg List.not_mem_nil, List.append_nil]
  · intro key
    rw [records.dependencies key, lookup_concat fresh]
    by_cases same : key = id
    · rw [if_pos same, same, lookup_eq_none fresh]
      rfl
    · rw [if_neg same]

/-- The pass comes to a dependency that the node has already. -/
theorem Records.skip (records : Records nodes (seen ++ [(id, past)]) edges) {dependency : String}
    (old : dependency ∈ past) : Records nodes (seen ++ [(id, past ++ [dependency])]) edges := by
  constructor
  · intro key
    rw [records.dependents key, users_concat, users_concat]
    by_cases same : key = dependency
    · simp [same, old]
    · simp [same]
  · intro key
    rw [records.dependencies key, lookup_concat fresh, lookup_concat fresh]
    by_cases same : key = id
    · simp [same, eraseDups_concat, old]
    · simp [same]

theorem Records.link (records : Records nodes (seen ++ [(id, past)]) edges) {dependency : String}
    (known : id ∈ nodes) (present : dependency ∈ nodes) :
    Records nodes (seen ++ [(id, past ++ [dependency])]) (edges.link id dependency) := by
  obtain ⟨node, stored⟩ := Option.isSome_iff_exists.1 (Std.TreeMap.isSome_getElem?_iff_mem.2 known)
  obtain ⟨other, found⟩ := Option.isSome_iff_exists.1 (Std.TreeMap.isSome_getElem?_iff_mem.2 present)
  have listed : edges.reverse.getD id [] = past.eraseDups := by
    rw [Std.TreeMap.getD_eq_getD_getElem?, records.dependencies, stored, lookup_concat fresh, if_pos rfl]
    rfl
  have used : edges.forward.getD dependency [] = users (seen ++ [(id, past)]) dependency := by
    rw [Std.TreeMap.getD_eq_getD_getElem?, records.dependents, found]
    rfl
  unfold Edges.link
  simp only [listed, List.mem_eraseDups]
  by_cases old : dependency ∈ past
  · rw [if_pos old]
    exact records.skip fresh old
  · rw [if_neg old]
    constructor
    · intro key
      rw [Adjacency.getElem?_push, used, users_concat, users_concat]
      by_cases same : key = dependency
      · subst same
        simp [old, found]
      · simp [same, records.dependents key, users_concat]
    · intro key
      rw [Adjacency.getElem?_push, listed, lookup_concat fresh]
      by_cases same : key = id
      · subst same
        simp [eraseDups_concat, old, stored]
      · simp [same, records.dependencies key, lookup_concat fresh]

theorem Records.foldl_link {ids : List String} (known : id ∈ nodes)
    (present : ∀ dependency ∈ ids, dependency ∈ nodes)
    (records : Records nodes (seen ++ [(id, past)]) edges) :
    Records nodes (seen ++ [(id, past ++ ids)]) (ids.foldl (Edges.link id) edges) := by
  induction ids generalizing past edges with
  | nil => rwa [List.append_nil]
  | cons dependency rest ih =>
    obtain ⟨here, later⟩ := List.forall_mem_cons.1 present
    rw [List.append_cons past]
    exact ih later (records.link fresh known here)

theorem Records.enter {node : Node} (known : id ∈ nodes)
    (present : ∀ dependency ∈ node.deps, dependency ∈ nodes)
    (records : Records nodes seen edges) : Records nodes (seen ++ [(id, node.deps)]) (edges.enter (id, node)) :=
  (records.visit fresh).foldl_link fresh known present

end

def declared (entries : List (String × Node)) : List (String × List String) :=
  entries.map fun entry => (entry.1, entry.2.deps)

theorem Records.foldl_enter {entries : List (String × Node)}
    (distinct : (seen.map Prod.fst ++ entries.map Prod.fst).Nodup)
    (known : ∀ entry ∈ entries, entry.1 ∈ nodes)
    (present : ∀ entry ∈ entries, ∀ dependency ∈ entry.2.deps, dependency ∈ nodes)
    (records : Records nodes seen edges) :
    Records nodes (seen ++ declared entries) (entries.foldl Edges.enter edges) := by
  induction entries generalizing seen edges with
  | nil => rwa [declared, List.map_nil, List.append_nil]
  | cons entry rest ih =>
    have fresh : entry.1 ∉ seen.map Prod.fst := fun before =>
      (List.nodup_append.1 distinct).2.2 _ before _ List.mem_cons_self rfl
    obtain ⟨knownHere, knownLater⟩ := List.forall_mem_cons.1 known
    obtain ⟨presentHere, presentLater⟩ := List.forall_mem_cons.1 present
    have entered := ih (by simpa using distinct) knownLater presentLater
      (records.enter fresh knownHere presentHere)
    rwa [List.append_assoc] at entered

theorem records_ofNodes
    (complete : ∀ (id : String) (node : Node), nodes[id]? = some node →
      ∀ dependency ∈ node.deps, dependency ∈ nodes) :
    Records nodes (declared nodes.toList) (ofNodes nodes) := by
  have stored (entry : String × Node) (member : entry ∈ nodes.toList) : nodes[entry.1]? = some entry.2 :=
    Std.TreeMap.mem_toList_iff_getElem?_eq_some.1 member
  refine (records_nil nodes).foldl_enter ?_ ?_ ?_
  · exact nodup_map_fst_toList nodes
  · intro entry member
    exact Std.TreeMap.isSome_getElem?_iff_mem.1 (Option.isSome_of_eq_some (stored entry member))
  · exact fun entry member => complete entry.1 entry.2 (stored entry member)

theorem lookup_declared {key : String} {node : Node} (stored : nodes[key]? = some node) :
    (declared nodes.toList).lookup key = some node.deps := by
  have member := Std.TreeMap.mem_toList_iff_getElem?_eq_some.2 stored
  obtain ⟨before, behind, split⟩ := List.append_of_mem member
  have distinct := nodup_map_fst_toList nodes
  rw [split, List.map_append, List.map_cons, List.nodup_append] at distinct
  refine List.lookup_eq_some_iff.2 ⟨declared before, declared behind, ?_, ?_⟩
  · rw [split, declared, List.map_append]
    rfl
  · intro entry early
    obtain ⟨other, here, rfl⟩ := List.mem_map.1 early
    exact bne_iff_ne.2 (distinct.2.2 _ (List.mem_map_of_mem here) _ List.mem_cons_self).symm

theorem mem_sinks {id : String} : id ∈ edges.sinks ↔ edges.forward[id]? = some [] := by
  simp [sinks, Std.TreeMap.mem_toList_iff_getElem?_eq_some]

theorem pairwise_sinks (edges : Edges) : edges.sinks.Pairwise (· < ·) :=
  (pairwise_keys edges.forward).sublist (filter_sublist_keys _ _)

end Edges

namespace Assembly

variable {assembly : Assembly}

section

variable (complete : assembly.missing? = none)
include complete

theorem records_graph :
    Edges.Records assembly.nodes (Edges.declared assembly.nodes.toList) (.ofNodes assembly.nodes) :=
  Edges.records_ofNodes (missing?_eq_none_iff.1 complete)

/-- A node's dependents stand under its id in the forward adjacency. -/
theorem getElem?_forward_graph (id : String) :
    assembly.graph.forward[id]? = assembly.nodes[id]?.map fun _ => assembly.nodes.dependents id := by
  refine ((records_graph complete).dependents id).trans ?_
  simp [Edges.users, Edges.declared, NodeMap.dependents, Node.dependsOn, List.filter_map, Function.comp_def]

/-- A node's distinct dependencies stand under its id in the reverse adjacency. -/
theorem getElem?_reverse_graph (id : String) :
    assembly.graph.reverse[id]? = assembly.nodes[id]?.map (·.deps.eraseDups) := by
  refine ((records_graph complete).dependencies id).trans ?_
  cases stored : assembly.nodes[id]? with
  | none => rfl
  | some node => rw [Option.map_some, Option.map_some, Edges.lookup_declared stored, Option.getD_some]

theorem mem_adjacency_graph (direction : Direction) {id : String} :
    id ∈ assembly.graph.adjacency direction ↔ id ∈ assembly.nodes := by
  rw [← Std.TreeMap.isSome_getElem?_iff_mem, ← Std.TreeMap.isSome_getElem?_iff_mem]
  cases direction with
  | forward => rw [Graph.adjacency, getElem?_forward_graph complete, Option.isSome_map]
  | reverse => rw [Graph.adjacency, getElem?_reverse_graph complete, Option.isSome_map]

theorem mem_sinks_graph {id : String} :
    id ∈ assembly.graph.sinks ↔ id ∈ assembly.nodes ∧ assembly.nodes.dependents id = [] := by
  have listed := getElem?_forward_graph complete id
  rw [← Std.TreeMap.isSome_getElem?_iff_mem, Option.isSome_iff_exists]
  refine Edges.mem_sinks.trans (Eq.congr_left listed |>.trans ?_)
  simp

end

end Assembly

end Orchestration
