import Orchestration.Fault
import Orchestration.Graph.Basic
import Orchestration.Service

/-! Assembling a graph. A planner gathers nodes in any order; building checks that every
dependency is among them and derives both adjacencies and the sinks. -/

set_option autoImplicit false

namespace Orchestration

/-- The adjacencies while they are filled. -/
structure Edges where
  forward : Adjacency := ∅
  reverse : Adjacency := ∅

namespace Edges

def place (edges : Edges) (id : String) : Edges :=
  ⟨edges.forward.insertIfNew id [], edges.reverse.insertIfNew id []⟩

def link (id : String) (edges : Edges) (dependency : String) : Edges :=
  if dependency ∈ edges.reverse.getD id [] then edges
  else
    { forward := edges.forward.push dependency id
      reverse := edges.reverse.push id dependency }

def enter (edges : Edges) (entry : String × Node) : Edges :=
  entry.2.deps.foldl (link entry.1) edges

/-- One pass over the nodes in id order, and over the dependencies of each as they are declared. -/
def ofNodes (nodes : NodeMap) : Edges :=
  nodes.toList.foldl enter (nodes.keys.foldl place {})

def sinks (edges : Edges) : List String :=
  (edges.forward.toList.filter fun (_, dependents) => dependents.isEmpty).map Prod.fst

end Edges

structure Assembly where
  nodes : NodeMap := ∅

namespace Assembly

inductive Error where
  | blankId
  | repeatedNode (id : String)
  | missingDependency (node dependency : String)
  deriving DecidableEq, Repr

instance : Fault Error where
  kind
    | .blankId => .invalidNode
    | .repeatedNode _ => .duplicateNode
    | .missingDependency _ _ => .unknownNode
  message
    | .blankId => "Node id must not be empty"
    | .repeatedNode id => s!"Node '{id}' already exists"
    | .missingDependency node dependency =>
      s!"Node '{node}' depends on unknown node '{dependency}'"

def size (assembly : Assembly) : Nat :=
  assembly.nodes.size

def add (assembly : Assembly) (node : Node) : Except Error Assembly :=
  if node.id = "" then .error .blankId
  else if assembly.nodes.contains node.id then .error (.repeatedNode node.id)
  else .ok ⟨assembly.nodes.insert node.id node⟩

/-- The first node in id order with a dependency that was not gathered, and the first
such dependency in its own list. -/
def missing? (assembly : Assembly) : Option (String × String) :=
  assembly.nodes.toList.findSome? fun (id, node) =>
    (node.deps.find? (!assembly.nodes.contains ·)).map (id, ·)

theorem missing?_eq_none_iff {assembly : Assembly} :
    assembly.missing? = none ↔ ∀ (id : String) (node : Node), assembly.nodes[id]? = some node →
      ∀ dependency ∈ node.deps, dependency ∈ assembly.nodes := by
  simp [missing?, Std.TreeMap.mem_toList_iff_getElem?_eq_some]

def graph (assembly : Assembly) : Graph :=
  let edges := Edges.ofNodes assembly.nodes
  { nodes := assembly.nodes, forward := edges.forward, reverse := edges.reverse, sinks := edges.sinks }

def build (assembly : Assembly) : Except Error Graph :=
  match assembly.missing? with
  | some (node, dependency) => .error (.missingDependency node dependency)
  | none => .ok assembly.graph

theorem add_eq_ok_iff {assembly next : Assembly} {node : Node} :
    assembly.add node = .ok next ↔
      node.id ≠ "" ∧ node.id ∉ assembly.nodes ∧ next = ⟨assembly.nodes.insert node.id node⟩ := by
  unfold add
  split
  · simp_all
  · split <;> simp_all [@eq_comm Assembly next]

theorem build_eq_ok_iff {assembly : Assembly} {graph : Graph} :
    assembly.build = .ok graph ↔ assembly.missing? = none ∧ graph = assembly.graph := by
  cases missing : assembly.missing? <;> simp [build, missing, @eq_comm Graph graph]

def graphOf (nodes : List Node) : Except Error Graph :=
  match nodes.foldlM add {} with
  | .error error => .error error
  | .ok assembly => assembly.build

inductive Request where
  | add (node : Node)
  | build
  deriving DecidableEq, Repr

inductive Reply where
  | added
  | built (graph : Graph)
  | refused (error : Error)

/-- One request. A refusal leaves the assembly as it was; a graph handed over empties it. -/
def serve (assembly : Assembly) : Request → Reply × Assembly
  | .add node =>
    match assembly.add node with
    | .ok next => (.added, next)
    | .error error => (.refused error, assembly)
  | .build =>
    match assembly.build with
    | .ok graph => (.built graph, {})
    | .error error => (.refused error, assembly)

theorem serve_refused {assembly next : Assembly} {request : Request} {error : Error}
    (refused : assembly.serve request = (.refused error, next)) : next = assembly := by
  cases request <;> simp only [serve] at refused <;> split at refused <;> simp_all

theorem serve_built {assembly next : Assembly} {request : Request} {graph : Graph}
    (built : assembly.serve request = (.built graph, next)) :
    assembly.build = .ok graph ∧ next = {} := by
  cases request <;> simp only [serve] at built <;> split at built <;> simp_all

end Assembly

end Orchestration
