import Orchestration.Machine.StateId

/-! State machines as lists of states. Nothing in the type keeps ids distinct or targets
known; whether a machine is well formed is for an audit to say. -/

set_option autoImplicit false

namespace Orchestration

inductive Event where
  | proceed
  | error
  deriving DecidableEq, Repr

def Event.name : Event → String
  | proceed => "CONTINUE"
  | error => "ERROR"

structure Transition where
  on : Event
  target : String
  parallel : Bool := false
  deriving DecidableEq, Repr

/-- A batch start fans out to tasks, and the batch join after them waits for all. -/
inductive Role where
  | task
  | batchStart
  | batchJoin
  deriving DecidableEq, Repr

structure Stage where
  id : String
  task : String := ""
  includesLogic : Bool := true
  transitions : List Transition := []
  role : Role
  node : String := ""
  deriving DecidableEq, Repr

namespace Stage

def continues (stage : Stage) : List Transition :=
  stage.transitions.filter (·.on = .proceed)

def failures (stage : Stage) : List Transition :=
  stage.transitions.filter (·.on = .error)

def continueTargets (stage : Stage) : List String :=
  stage.continues.map Transition.target

/-- Every transition is of exactly one of the two sorts. -/
theorem length_continues_add_failures (stage : Stage) :
    stage.continues.length + stage.failures.length = stage.transitions.length := by
  rw [continues, failures, ← List.countP_eq_length_filter, ← List.countP_eq_length_filter,
    List.length_eq_countP_add_countP (p := fun transition => decide (transition.on = .proceed))]
  congr 2
  funext transition
  cases transition.on <;> rfl

end Stage

inductive State where
  | stage (body : Stage)
  | final (name : String)
  deriving DecidableEq, Repr

namespace State

def id : State → String
  | stage body => body.id
  | final name => name

def stage? : State → Option Stage
  | stage body => some body
  | final _ => none

end State

structure Machine where
  states : List State
  deriving DecidableEq, Repr

namespace Machine

def ids (machine : Machine) : List String :=
  machine.states.map State.id

def stages (machine : Machine) : List Stage :=
  machine.states.filterMap State.stage?

def find? (machine : Machine) (id : String) : Option State :=
  machine.states.find? (·.id = id)

def position? (machine : Machine) (id : String) : Option Nat :=
  machine.states.findIdx? (·.id = id)

/-- The first state with an id, if it is a stage. -/
def stageAt? (machine : Machine) (id : String) : Option Stage :=
  (machine.find? id).bind State.stage?

/-- The first stage with an id, whatever final states may share it. -/
def firstStage? (machine : Machine) (id : String) : Option Stage :=
  machine.stages.find? (·.id = id)

def role? (machine : Machine) (id : String) : Option Role :=
  (machine.firstStage? id).map Stage.role

def targets (machine : Machine) : List String :=
  machine.stages.flatMap fun stage => stage.transitions.map Transition.target

theorem mem_stages {machine : Machine} {stage : Stage} :
    stage ∈ machine.stages ↔ .stage stage ∈ machine.states := by
  simp only [stages, List.mem_filterMap]
  constructor
  · rintro ⟨state, member, found⟩
    cases state with
    | stage other => exact Option.some.inj found ▸ member
    | final id => cases found
  · exact fun member => ⟨_, member, rfl⟩

theorem find?_isSome_iff {machine : Machine} {id : String} :
    (machine.find? id).isSome = true ↔ id ∈ machine.ids := by
  simp [find?, ids]

theorem stageAt?_eq_some {machine : Machine} {id : String} {stage : Stage}
    (found : machine.stageAt? id = some stage) : stage ∈ machine.stages ∧ stage.id = id := by
  obtain ⟨state, first, same⟩ := Option.bind_eq_some_iff.1 found
  cases state with
  | stage other =>
    cases same
    have named := List.find?_some first
    exact ⟨mem_stages.2 (List.mem_of_find?_eq_some first), of_decide_eq_true named⟩
  | final id => cases same

end Machine

end Orchestration
