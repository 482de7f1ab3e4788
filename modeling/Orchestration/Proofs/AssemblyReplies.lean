import Orchestration.Proofs.AssemblyHistory

/-! What an assembly replies. The nodes accepted since a graph was last handed over decide which nodes
and which builds it refuses, and why. A refusal has no effect on any later reply. -/

set_option autoImplicit false

namespace Orchestration

open Service (history exchange after)

/-- Of the nodes in key order, those before a node have the smaller keys. -/
theorem NodeMap.mem_before_iff {nodes : NodeMap} {before behind : List (String × Node)}
    {entry other : String × Node} (split : nodes.toList = before ++ entry :: behind)
    (member : other ∈ nodes.toList) : other ∈ before ↔ other.1 < entry.1 := by
  have ascending : nodes.toList.Pairwise fun first second => first.1 < second.1 := by
    rw [← List.pairwise_map, Std.TreeMap.map_fst_toList_eq_keys]
    exact pairwise_keys nodes
  rw [split, List.pairwise_append, List.pairwise_cons] at ascending
  obtain ⟨_, ⟨above, _⟩, below⟩ := ascending
  constructor
  · exact fun early => below other early entry List.mem_cons_self
  · intro less
    rw [split, List.mem_append, List.mem_cons] at member
    rcases member with early | rfl | late
    · exact early
    · exact absurd less (String.lt_irrefl _)
    · exact absurd (String.lt_trans less (above other late)) (String.lt_irrefl _)

namespace Assembly

def Refuses (assembly : Assembly) (request : Request) (kind : Fault.Kind) : Prop :=
  ∃ error, (assembly.serve request).1 = .refused error ∧ Fault.kind error = kind

def Exchange.succeeds (exchange : Exchange) : Bool :=
  match exchange.reply with
  | .refused _ => false
  | _ => true

def granted (assembly : Assembly) (requests : List Request) : List Request :=
  ((history serve assembly requests).filter Exchange.succeeds).map Service.Exchange.request

def Holds (held : List Node) (id : String) : Prop :=
  ∃ node ∈ held, node.id = id

/-- The first of a node's dependencies, as they are declared, that is not held. -/
def Lacks (held : List Node) (node : Node) (dependency : String) : Prop :=
  ¬ Holds held dependency ∧ ∃ before behind, node.deps = before ++ dependency :: behind ∧
    ∀ id ∈ before, Holds held id

/-- The first node by id that lacks a dependency, with what it lacks. -/
def FirstLacking (held : List Node) (id dependency : String) : Prop :=
  ∃ node ∈ held, node.id = id ∧ Lacks held node dependency ∧
    ∀ other ∈ held, other.id < id → ∀ needed ∈ other.deps, Holds held needed

/-- What an assembly replies that holds the given nodes, and what it holds then. -/
structure Answers (held : List Node) (assembly : Assembly) : Prop where
  blank : ∀ node : Node, assembly.Refuses (.add node) .invalidNode ↔ node.id = ""
  repeated : ∀ node : Node,
    assembly.Refuses (.add node) .duplicateNode ↔ node.id ≠ "" ∧ Holds held node.id
  added : ∀ node : Node,
    (assembly.serve (.add node)).1 = .added ↔ node.id ≠ "" ∧ ¬ Holds held node.id
  missing : assembly.Refuses .build .unknownNode ↔
    ∃ node ∈ held, ∃ dependency ∈ node.deps, ¬ Holds held dependency
  named : ∀ id dependency,
    (assembly.serve .build).1 = .refused (.missingDependency id dependency) ↔ FirstLacking held id dependency
  built : (∃ graph, (assembly.serve .build).1 = .built graph) ↔
    ∀ node ∈ held, ∀ dependency ∈ node.deps, Holds held dependency
  unchanged : ∀ request kind, assembly.Refuses request kind → (assembly.serve request).2 = assembly
  emptied : ∀ request graph, (assembly.serve request).1 = .built graph → (assembly.serve request).2 = {}

variable {assembly : Assembly} {held : List Node}

/-- After any requests an assembly holds what it has accepted. -/
theorem gathers_after (requests : List Request) :
    Gathers (accepted (history serve {} requests)) (after serve {} requests) := by
  induction requests using List.reverseRecOn with
  | nil => exact gathers_nil
  | append_singleton requests request ih =>
    rw [Service.history_concat, Service.after_concat]
    exact ih.serve request

theorem serve_of_not_succeeds {request : Request}
    (refused : Exchange.succeeds (exchange serve assembly request) = false) :
    (assembly.serve request).2 = assembly := by
  rcases assembly.serve_cases request with ⟨_, _, _, _, served⟩ | ⟨_, _, _, served⟩ | ⟨_, served⟩
  · simp [exchange, Exchange.succeeds, served] at refused
  · simp [exchange, Exchange.succeeds, served] at refused
  · rw [served]

theorem granted_cons (assembly : Assembly) (request : Request) (rest : List Request) :
    assembly.granted (request :: rest) =
      if Exchange.succeeds (exchange serve assembly request) then
        request :: (assembly.serve request).2.granted rest
      else assembly.granted rest := by
  rw [granted, Service.history_cons, List.filter_cons]
  split
  next => rfl
  next refused =>
    rw [serve_of_not_succeeds (Bool.not_eq_true _ ▸ refused)]
    rfl

/-- Without the requests that are refused, all others are replied to as they are with them, and the same
assembly is left. -/
theorem history_granted (assembly : Assembly) (requests : List Request) :
    history serve assembly (assembly.granted requests) =
        (history serve assembly requests).filter Exchange.succeeds ∧
      after serve assembly (assembly.granted requests) = after serve assembly requests := by
  induction requests generalizing assembly with
  | nil => exact ⟨rfl, rfl⟩
  | cons request rest ih =>
    rw [granted_cons, Service.history_cons, List.filter_cons]
    split
    next =>
      obtain ⟨replies, left⟩ := ih (assembly.serve request).2
      exact ⟨by rw [Service.history_cons, replies], left⟩
    next refused =>
      have same := serve_of_not_succeeds (Bool.not_eq_true _ ▸ refused)
      rw [same]
      obtain ⟨replies, left⟩ := ih assembly
      refine ⟨replies, left.trans ?_⟩
      rw [Service.after_cons, same]

namespace Gathers

variable (gathers : Gathers held assembly)
include gathers

theorem contains_iff {id : String} : assembly.nodes.contains id = true ↔ Holds held id :=
  Std.TreeMap.contains_iff_mem.trans gathers.mem_iff

theorem find?_eq_some_iff {node : Node} {dependency : String} :
    node.deps.find? (!assembly.nodes.contains ·) = some dependency ↔ Lacks held node dependency := by
  simp only [List.find?_eq_some_iff_append, Bool.not_eq_true', Bool.not_not, gathers.contains_iff,
    ← Bool.not_eq_true, Lacks]

theorem find?_eq_none_iff {node : Node} :
    node.deps.find? (!assembly.nodes.contains ·) = none ↔ ∀ id ∈ node.deps, Holds held id := by
  simp only [List.find?_eq_none, Bool.not_eq_true', Bool.not_eq_false, gathers.contains_iff]

theorem mem_toList_iff {id : String} {node : Node} :
    (id, node) ∈ assembly.nodes.toList ↔ node ∈ held ∧ node.id = id := by
  rw [Std.TreeMap.mem_toList_iff_getElem?_eq_some, gathers.stored]

theorem missing?_eq_some_iff {id dependency : String} :
    assembly.missing? = some (id, dependency) ↔ FirstLacking held id dependency := by
  rw [missing?, List.findSome?_eq_some_iff]
  constructor
  · rintro ⟨before, ⟨key, node⟩, behind, split, found, silent⟩
    obtain ⟨_, first, same⟩ := Option.map_eq_some_iff.1 found
    cases same
    obtain ⟨member, named⟩ := gathers.mem_toList_iff.1 (split ▸ List.mem_append_cons_self)
    refine ⟨node, member, named, gathers.find?_eq_some_iff.1 first, fun other inHeld less => ?_⟩
    have stored := gathers.mem_toList_iff.2 ⟨inHeld, rfl⟩
    have early : (other.id, other) ∈ before := (NodeMap.mem_before_iff split stored).2 less
    exact gathers.find?_eq_none_iff.1 (Option.map_eq_none_iff.1 (silent _ early))
  · rintro ⟨node, member, rfl, lacks, complete⟩
    have stored := gathers.mem_toList_iff.2 ⟨member, rfl⟩
    obtain ⟨before, behind, split⟩ := List.append_of_mem stored
    refine ⟨before, (node.id, node), behind, split, ?_, ?_⟩
    · exact Option.map_eq_some_iff.2 ⟨dependency, gathers.find?_eq_some_iff.2 lacks, rfl⟩
    · rintro ⟨key, other⟩ early
      have among : (key, other) ∈ assembly.nodes.toList := split ▸ List.mem_append_left _ early
      have less := (NodeMap.mem_before_iff split among).1 early
      obtain ⟨inHeld, rfl⟩ := gathers.mem_toList_iff.1 among
      exact Option.map_eq_none_iff.2 (gathers.find?_eq_none_iff.2 (complete other inHeld less))

theorem missing?_eq_none_iff : assembly.missing? = none ↔
    ∀ node ∈ held, ∀ dependency ∈ node.deps, Holds held dependency := by
  rw [Assembly.missing?_eq_none_iff]
  simp only [gathers.stored, gathers.mem_iff]
  constructor
  · exact fun complete node member => complete node.id node ⟨member, rfl⟩
  · exact fun complete _ node stored => complete node stored.1

theorem serve_add_cases (node : Node) :
    (node.id = "" ∧ assembly.serve (.add node) = (.refused .blankId, assembly)) ∨
    (node.id ≠ "" ∧ Holds held node.id ∧
      assembly.serve (.add node) = (.refused (.repeatedNode node.id), assembly)) ∨
    (node.id ≠ "" ∧ ¬ Holds held node.id ∧
      assembly.serve (.add node) = (.added, ⟨assembly.nodes.insert node.id node⟩)) := by
  by_cases blank : node.id = ""
  · exact .inl ⟨blank, by simp [Assembly.serve, add, blank]⟩
  · by_cases present : Holds held node.id
    · have known := gathers.contains_iff.2 present
      exact .inr (.inl ⟨blank, present, by simp [Assembly.serve, add, blank, known]⟩)
    · have fresh := mt gathers.contains_iff.1 present
      exact .inr (.inr ⟨blank, present, by simp [Assembly.serve, add, blank, fresh]⟩)

theorem serve_build_cases :
    (∃ id dependency, FirstLacking held id dependency ∧
      assembly.serve .build = (.refused (.missingDependency id dependency), assembly)) ∨
    ((∀ node ∈ held, ∀ dependency ∈ node.deps, Holds held dependency) ∧
      assembly.serve .build = (.built assembly.graph, {})) := by
  cases missing : assembly.missing? with
  | some lacking =>
    obtain ⟨id, dependency⟩ := lacking
    refine .inl ⟨id, dependency, gathers.missing?_eq_some_iff.1 missing, ?_⟩
    simp only [Assembly.serve, build, missing]
  | none =>
    refine .inr ⟨gathers.missing?_eq_none_iff.1 missing, ?_⟩
    simp only [Assembly.serve, build, missing]

end Gathers

theorem FirstLacking.incomplete {id dependency : String} (lacking : FirstLacking held id dependency) :
    ∃ node ∈ held, ∃ dependency ∈ node.deps, ¬ Holds held dependency := by
  obtain ⟨node, member, _, ⟨absent, before, behind, split, _⟩, _⟩ := lacking
  exact ⟨node, member, dependency, split ▸ List.mem_append_cons_self, absent⟩

theorem Gathers.answers (gathers : Gathers held assembly) : Answers held assembly where
  blank node := by
    unfold Refuses
    rcases gathers.serve_add_cases node with ⟨blank, served⟩ | ⟨named, _, served⟩ | ⟨named, _, served⟩
    · simp [served, blank, Fault.kind]
    · simp [served, named, Fault.kind]
    · simp [served, named]
  repeated node := by
    unfold Refuses
    rcases gathers.serve_add_cases node with ⟨blank, served⟩ | ⟨named, present, served⟩ | ⟨named, fresh, served⟩
    · simp [served, blank, Fault.kind]
    · simp [served, named, present, Fault.kind]
    · simp [served, fresh]
  added node := by
    rcases gathers.serve_add_cases node with ⟨blank, served⟩ | ⟨named, present, served⟩ | ⟨named, fresh, served⟩
    · simp [served, blank]
    · simp [served, present]
    · simp [served, named, fresh]
  missing := by
    unfold Refuses
    rcases gathers.serve_build_cases with ⟨id, dependency, lacking, served⟩ | ⟨complete, served⟩
    · simpa [served, Fault.kind] using lacking.incomplete
    · simpa [served] using complete
  named id dependency := by
    rw [← gathers.missing?_eq_some_iff]
    cases missing : assembly.missing? <;> simp [Assembly.serve, build, missing, Prod.ext_iff]
  built := by
    rcases gathers.serve_build_cases with ⟨id, dependency, lacking, served⟩ | ⟨complete, served⟩
    · simpa [served] using lacking.incomplete
    · simpa [served] using complete
  unchanged request kind refused := by
    obtain ⟨error, reply, _⟩ := refused
    exact serve_refused (Prod.ext reply rfl)
  emptied request graph built := (serve_built (Prod.ext built rfl)).2

/-- Whatever was asked before, an assembly answers by what it has accepted since it last handed a graph
over; and whatever it refuses could as well not have been asked. -/
theorem answers_by_accepted (requests : List Request) :
    Answers (accepted (history serve {} requests)) (after serve {} requests) ∧
      history serve {} (granted {} requests) = (history serve {} requests).filter Exchange.succeeds ∧
        after serve {} (granted {} requests) = after serve {} requests :=
  ⟨(gathers_after requests).answers, history_granted {} requests⟩

end Assembly

end Orchestration
