import Std.Data.TreeMap

/-! Nodes, their declared dependencies, and the graph that stores them. A graph is plain
data: nothing forces its adjacency, its sinks or the keys of its nodes to be right. -/

set_option autoImplicit false

namespace Orchestration

/-- What a node's task does to the world outside; passed through untouched. -/
inductive SideEffect where
  | pure
  | idempotent
  | effectful
  deriving DecidableEq, Repr

def SideEffect.name : SideEffect → String
  | pure => "pure"
  | idempotent => "idempotent"
  | effectful => "effectful"

structure Node where
  id : String
  task : String := ""
  agentVersion : String := ""
  sideEffect : SideEffect := .pure
  ttl : Int := 0
  deps : List String := []
  inputKey : String := ""
  deriving DecidableEq, Repr

def Node.dependsOn (node : Node) (id : String) : Bool :=
  id ∈ node.deps

abbrev NodeMap := Std.TreeMap String Node

abbrev Adjacency := Std.TreeMap String (List String)

def Adjacency.push (adjacency : Adjacency) (key id : String) : Adjacency :=
  adjacency.insert key (adjacency.getD key [] ++ [id])

theorem Adjacency.getElem?_push (adjacency : Adjacency) (key id other : String) :
    (adjacency.push key id)[other]? =
      if other = key then some (adjacency.getD key [] ++ [id]) else adjacency[other]? := by
  rw [push, Std.TreeMap.getElem?_insert]
  simp only [Std.LawfulEqCmp.compare_eq_iff_eq, @eq_comm String other]

theorem Adjacency.getD_push (adjacency : Adjacency) (key id other : String) :
    (adjacency.push key id).getD other [] =
      adjacency.getD other [] ++ if other = key then [id] else [] := by
  rw [Std.TreeMap.getD_eq_getD_getElem?, getElem?_push]
  by_cases same : other = key <;> simp [same, Std.TreeMap.getD_eq_getD_getElem?]

section

variable {Value : Type} (entries : Std.TreeMap String Value)

theorem pairwise_keys : entries.keys.Pairwise (· < ·) :=
  entries.ordered_keys.imp fun less => compareOfLessAndEq_eq_lt.1 less

theorem nodup_map_fst_toList : (entries.toList.map Prod.fst).Nodup := by
  rw [Std.TreeMap.map_fst_toList_eq_keys]
  exact Std.TreeMap.nodup_keys

theorem filter_sublist_keys (chosen : String × Value → Bool) :
    ((entries.toList.filter chosen).map Prod.fst).Sublist entries.keys := by
  rw [← Std.TreeMap.map_fst_toList_eq_keys]
  exact List.filter_sublist.map _

/-- Keys that are inserted only where they are new leave what was there before them. -/
theorem getElem?_foldl_insertIfNew (keys : List String) (value : Value) (key : String) :
    (keys.foldl (·.insertIfNew · value) entries)[key]? =
      entries[key]?.or (if key ∈ keys then some value else none) := by
  induction keys generalizing entries with
  | nil => simp
  | cons first rest ih =>
    have inserted : (entries.insertIfNew first value)[key]? =
        entries[key]?.or (if key = first then some value else none) := by
      rw [Std.TreeMap.getElem?_insertIfNew]
      by_cases same : key = first
      · subst same
        cases found : entries[key]? <;> simp only [← Std.TreeMap.isSome_getElem?_iff_mem, found] <;> simp
      · simp [same, Ne.symm same]
    rw [List.foldl_cons, ih, inserted]
    by_cases same : key = first <;> simp [same]

end

namespace NodeMap

def dependents (nodes : NodeMap) (id : String) : List String :=
  (nodes.toList.filter fun (_, node) => node.dependsOn id).map Prod.fst

theorem mem_dependents {nodes : NodeMap} {id key : String} :
    key ∈ nodes.dependents id ↔ ∃ node, nodes[key]? = some node ∧ id ∈ node.deps := by
  simp [dependents, Node.dependsOn, Std.TreeMap.mem_toList_iff_getElem?_eq_some]

theorem dependents_sublist (nodes : NodeMap) (id : String) :
    (nodes.dependents id).Sublist nodes.keys :=
  filter_sublist_keys nodes _

end NodeMap

inductive Direction where
  | forward
  | reverse
  deriving DecidableEq, Repr

def Direction.name : Direction → String
  | forward => "Forward"
  | reverse => "Reverse"

structure Graph where
  nodes : NodeMap := ∅
  forward : Adjacency := ∅
  reverse : Adjacency := ∅
  sinks : List String := []

namespace Graph

def adjacency (graph : Graph) : Direction → Adjacency
  | .forward => graph.forward
  | .reverse => graph.reverse

def find? (graph : Graph) (key : String) : Option Node :=
  graph.nodes[key]?

def contains (graph : Graph) (key : String) : Bool :=
  graph.nodes.contains key

def size (graph : Graph) : Nat :=
  graph.nodes.size

theorem contains_iff {graph : Graph} {key : String} :
    graph.contains key = true ↔ ∃ node, graph.find? key = some node := by
  rw [contains, Std.TreeMap.contains_eq_isSome_getElem?, find?, Option.isSome_iff_exists]

theorem mem_keys {graph : Graph} {key : String} :
    key ∈ graph.nodes.keys ↔ graph.contains key = true :=
  Std.TreeMap.mem_keys.trans Std.TreeMap.contains_iff_mem.symm

/-- The node under one key lists another key of the graph among its dependencies. -/
def DependsOn (graph : Graph) (key dependency : String) : Prop :=
  ∃ node, graph.find? key = some node ∧ dependency ∈ node.deps ∧ graph.contains dependency = true

/-- Every node is stored under its own id. -/
def SelfKeyed (graph : Graph) : Prop :=
  ∀ key node, graph.find? key = some node → node.id = key

theorem selfKeyed_iff {graph : Graph} :
    graph.SelfKeyed ↔ ∀ entry ∈ graph.nodes.toList, entry.2.id = entry.1 := by
  simp only [SelfKeyed, find?, Prod.forall, Std.TreeMap.mem_toList_iff_getElem?_eq_some]

instance : DecidablePred SelfKeyed := fun _ => decidable_of_iff _ selfKeyed_iff.symm

end Graph

end Orchestration
