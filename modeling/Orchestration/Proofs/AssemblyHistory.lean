import Mathlib.Data.List.DropRight
import Mathlib.Data.List.Induction
import Orchestration.Proofs.Adjacencies

/-! What an assembly hands over. Its graphs are determined by the history of requests and replies:
each of them holds the nodes accepted since the one before, and what follows from their dependencies. -/

set_option autoImplicit false

namespace Orchestration

open Service (history exchange after)

/-- The graph that some nodes make: every node under its own id, its dependencies in the order in which they
are first declared, its dependents and the sinks ascending, and nothing else. -/
structure Graph.Reflects (graph : Graph) (nodes : List Node) : Prop where
  stored : ∀ id node, graph.find? id = some node ↔ node ∈ nodes ∧ node.id = id
  size : graph.size = nodes.length
  keys : ∀ direction id, id ∈ graph.adjacency direction ↔ ∃ node ∈ nodes, node.id = id
  dependencies : ∀ node ∈ nodes, ∃ ids, graph.reverse[node.id]? = some ids ∧
    (∀ id, id ∈ ids ↔ id ∈ node.deps) ∧
      ids.Pairwise fun first second => node.deps.idxOf first < node.deps.idxOf second
  dependents : ∀ node ∈ nodes, ∃ ids, graph.forward[node.id]? = some ids ∧ ids.Pairwise (· < ·) ∧
    ∀ id, id ∈ ids ↔ ∃ other ∈ nodes, other.id = id ∧ node.id ∈ other.deps
  ascending : graph.sinks.Pairwise (· < ·)
  sinks : ∀ id, id ∈ graph.sinks ↔
    (∃ node ∈ nodes, node.id = id) ∧ ∀ other ∈ nodes, id ∉ other.deps

namespace Assembly

abbrev Exchange := Service.Exchange Request Reply

def Exchange.builds (exchange : Exchange) : Bool :=
  match exchange.reply with
  | .built _ => true
  | _ => false

def Exchange.accepts? : Exchange → Option Node
  | ⟨.add node, .added⟩ => some node
  | _ => none

/-- The nodes accepted since a graph was last handed over, in the order in which they came. -/
def accepted (log : List Exchange) : List Node :=
  (log.rtakeWhile fun exchange => !exchange.builds).filterMap Exchange.accepts?

theorem accepted_concat (log : List Exchange) (last : Exchange) :
    accepted (log ++ [last]) =
      if last.builds then [] else accepted log ++ last.accepts?.toList := by
  unfold accepted
  rw [List.rtakeWhile_concat]
  cases last.builds with
  | true => rfl
  | false =>
    cases found : last.accepts? <;> simp [found]

/-- A request adds a node, hands a graph over and starts afresh, or is refused and changes nothing. -/
theorem serve_cases (assembly : Assembly) (request : Request) :
    (∃ node next, request = .add node ∧ assembly.add node = .ok next ∧
      assembly.serve request = (.added, next)) ∨
    (∃ graph, request = .build ∧ assembly.build = .ok graph ∧
      assembly.serve request = (.built graph, {})) ∨
    ∃ error, assembly.serve request = (.refused error, assembly) := by
  cases request with
  | add node =>
    cases added : assembly.add node with
    | error error => exact .inr (.inr ⟨error, by simp only [serve, added]⟩)
    | ok next => exact .inl ⟨node, next, rfl, added, by simp only [serve, added]⟩
  | build =>
    cases built : assembly.build with
    | error error => exact .inr (.inr ⟨error, by simp only [serve, built]⟩)
    | ok graph => exact .inr (.inl ⟨graph, rfl, rfl, by simp only [serve, built]⟩)

structure Gathers (nodes : List Node) (assembly : Assembly) : Prop where
  stored : ∀ id node, assembly.nodes[id]? = some node ↔ node ∈ nodes ∧ node.id = id
  size : assembly.size = nodes.length

theorem gathers_nil : Gathers [] {} :=
  ⟨fun _ _ => by simp, rfl⟩

namespace Gathers

variable {nodes : List Node} {assembly next : Assembly} {node : Node} {id : String}

theorem mem_iff (gathers : Gathers nodes assembly) :
    id ∈ assembly.nodes ↔ ∃ node ∈ nodes, node.id = id := by
  rw [← Std.TreeMap.isSome_getElem?_iff_mem, Option.isSome_iff_exists]
  exact exists_congr fun node => gathers.stored id node

theorem concat (gathers : Gathers nodes assembly) (added : assembly.add node = .ok next) :
    Gathers (nodes ++ [node]) next := by
  obtain ⟨-, fresh, rfl⟩ := add_eq_ok_iff.1 added
  constructor
  · intro id other
    rw [Std.TreeMap.getElem?_insert]
    simp only [Std.LawfulEqCmp.compare_eq_iff_eq, List.mem_append, List.mem_singleton]
    split
    next same =>
      -- no earlier node has the id of the new one
      have new : other ∈ nodes → other.id ≠ id := fun member named =>
        fresh (gathers.mem_iff.2 ⟨other, member, named.trans same.symm⟩)
      grind
    next apart => grind [gathers.stored id other]
  · simp [Assembly.size, Std.TreeMap.size_insert, fresh, ← gathers.size]

theorem serve {log : List Exchange} (gathers : Gathers (accepted log) assembly) (request : Request) :
    Gathers (accepted (log ++ [exchange Assembly.serve assembly request])) (assembly.serve request).2 := by
  rw [accepted_concat, exchange]
  rcases assembly.serve_cases request with ⟨node, next, rfl, added, served⟩ | ⟨graph, rfl, _, served⟩ |
    ⟨error, served⟩
  · simpa [served, Exchange.builds, Exchange.accepts?] using gathers.concat added
  · simpa [served, Exchange.builds] using gathers_nil
  · simpa [served, Exchange.builds, Exchange.accepts?] using gathers

end Gathers

/-- At every place of a history stands an assembly that holds what has been accepted until then. -/
theorem exists_gathers {assembly : Assembly} {requests : List Request} {past earlier later : List Exchange}
    {last : Exchange} (gathers : Gathers (accepted past) assembly)
    (split : history serve assembly requests = earlier ++ last :: later) :
    ∃ reached : Assembly, Gathers (accepted (past ++ earlier)) reached ∧
      last = exchange serve reached last.request := by
  induction earlier generalizing assembly requests past with
  | nil =>
    cases requests with
    | nil => simp [Service.history_nil] at split
    | cons request rest =>
      rw [Service.history_cons, List.nil_append, List.cons.injEq] at split
      obtain ⟨rfl, -⟩ := split
      exact ⟨assembly, by rwa [List.append_nil], rfl⟩
  | cons first earlier ih =>
    cases requests with
    | nil => simp [Service.history_nil] at split
    | cons request rest =>
      rw [Service.history_cons, List.cons_append, List.cons.injEq] at split
      obtain ⟨rfl, split⟩ := split
      have onward := ih (gathers.serve request) split
      rwa [List.append_assoc] at onward

section

variable {nodes : List Node} {assembly : Assembly}

theorem pairwise_eraseDups (ids : List String) :
    ids.eraseDups.Pairwise fun first second => ids.idxOf first < ids.idxOf second := by
  induction ids using List.reverseRecOn with
  | nil => simp
  | append_singleton ids id ih =>
    have kept : ids.eraseDups.Pairwise fun first second =>
        (ids ++ [id]).idxOf first < (ids ++ [id]).idxOf second := by
      refine ih.imp_of_mem fun {first second} inFirst inSecond before => ?_
      rw [List.mem_eraseDups] at inFirst inSecond
      rwa [List.idxOf_append, List.idxOf_append, if_pos inFirst, if_pos inSecond]
    rw [eraseDups_concat]
    split
    next => exact kept
    next new =>
      -- a new id comes last, behind all that are in the list
      rw [List.pairwise_append]
      refine ⟨kept, List.pairwise_singleton _ _, fun first inFirst second last => ?_⟩
      rw [List.mem_singleton.1 last, List.idxOf_append, List.idxOf_append,
        if_pos (List.mem_eraseDups.1 inFirst), if_neg new]
      have inside := List.idxOf_lt_length_of_mem (List.mem_eraseDups.1 inFirst)
      omega

theorem Gathers.mem_dependents (gathers : Gathers nodes assembly) {id key : String} :
    key ∈ assembly.nodes.dependents id ↔ ∃ node ∈ nodes, node.id = key ∧ id ∈ node.deps := by
  rw [NodeMap.mem_dependents]
  simp only [gathers.stored]
  grind

theorem Gathers.reflects (gathers : Gathers nodes assembly) (complete : assembly.missing? = none) :
    assembly.graph.Reflects nodes := by
  have found : ∀ node ∈ nodes, assembly.nodes[node.id]? = some node := fun node member =>
    (gathers.stored node.id node).2 ⟨member, rfl⟩
  constructor
  case stored => exact gathers.stored
  case size => exact gathers.size
  case keys =>
    intro direction id
    rw [mem_adjacency_graph complete, gathers.mem_iff]
  case dependencies =>
    intro node member
    refine ⟨node.deps.eraseDups, ?_, fun id => List.mem_eraseDups, pairwise_eraseDups node.deps⟩
    rw [getElem?_reverse_graph complete, found node member, Option.map_some]
  case dependents =>
    intro node member
    refine ⟨assembly.nodes.dependents node.id, ?_, ?_, fun id => gathers.mem_dependents⟩
    · rw [getElem?_forward_graph complete, found node member, Option.map_some]
    · exact (pairwise_keys assembly.nodes).sublist (NodeMap.dependents_sublist _ _)
  case ascending => exact Edges.pairwise_sinks _
  case sinks =>
    intro id
    rw [mem_sinks_graph complete, gathers.mem_iff, List.eq_nil_iff_forall_not_mem]
    simp only [gathers.mem_dependents]
    grind

end

/-- Whatever was asked before, refusals and earlier graphs included, a graph that is handed over is the
one that the nodes accepted since the last one make. -/
theorem reflects_accepted {requests : List Request} {earlier later : List Exchange} {graph : Graph}
    (built : history serve {} requests = earlier ++ ⟨.build, .built graph⟩ :: later) :
    graph.Reflects (accepted earlier) := by
  have start : Gathers (accepted []) {} := gathers_nil
  obtain ⟨reached, gathers, served⟩ := exists_gathers start built
  have reply : reached.serve .build = (.built graph, (reached.serve .build).2) :=
    Prod.ext (congrArg Service.Exchange.reply served).symm rfl
  obtain ⟨complete, rfl⟩ := build_eq_ok_iff.1 (serve_built reply).1
  exact gathers.reflects complete

def untidy : List Request :=
  [.add { id := "" }, .add { id := "b", deps := ["a", "a"] }, .build, .add { id := "b" }, .add { id := "a" },
    .build, .add { id := "d", deps := ["c", "d", "c"] }, .build, .add { id := "c" }, .build]

theorem reflects_untidy : ∃ earlier graph, history serve {} untidy = earlier ++ [⟨.build, .built graph⟩] ∧
    accepted earlier = [{ id := "d", deps := ["c", "d", "c"] }, { id := "c" }] ∧
      graph.Reflects (accepted earlier) := by
  obtain ⟨graph, built⟩ : ∃ graph,
      history serve {} untidy = (history serve {} untidy).take 9 ++ [⟨.build, .built graph⟩] := ⟨_, rfl⟩
  exact ⟨_, graph, built, rfl, reflects_accepted built⟩

end Assembly

end Orchestration
