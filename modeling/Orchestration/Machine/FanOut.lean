import Orchestration.Fault
import Orchestration.Machine.Basic

/-! Reading a batch start: how many branches its join collects and which join that is.
This is what a runtime asks before it dispatches a batch. -/

set_option autoImplicit false

namespace Orchestration

/-- The number of marked branches; without any, the one unmarked edge arrives alone. -/
def Stage.arrivals (stage : Stage) : Nat :=
  max 1 (stage.continues.countP Transition.parallel)

namespace Machine

inductive FanOutError where
  | noStage (id : String)
  | notBatchStart (id : String)
  | noJoin (id : String)
  deriving DecidableEq, Repr

instance : Fault FanOutError where
  kind _ := .unknownState
  message
    | .noStage id => s!"No execution state '{id}'"
    | .notBatchStart id => s!"State '{id}' is not a batch start"
    | .noJoin id => s!"Batch start '{id}' does not lead to a join"

def batchStart (machine : Machine) (id : String) : Except FanOutError Stage :=
  match machine.stageAt? id with
  | none => .error (.noStage id)
  | some stage => if stage.role = .batchStart then .ok stage else .error (.notBatchStart id)

def successor? (machine : Machine) (stage : Stage) : Option Stage :=
  stage.continueTargets.head?.bind machine.stageAt?

/-- The join that the first branch of a start reaches, directly or through one task. -/
def joinAfter? (machine : Machine) (start : Stage) : Option Stage :=
  match machine.successor? start with
  | none => none
  | some next =>
    let reached := if next.role = .task then machine.successor? next else some next
    reached.filter (·.role = .batchJoin)

def arrivals (machine : Machine) (id : String) : Except FanOutError Nat :=
  (machine.batchStart id).map Stage.arrivals

def joinOf (machine : Machine) (id : String) : Except FanOutError String :=
  match machine.batchStart id with
  | .error error => .error error
  | .ok start =>
    match machine.joinAfter? start with
    | none => .error (.noJoin id)
    | some join => .ok join.id

theorem batchStart_eq_ok_iff {machine : Machine} {id : String} {stage : Stage} :
    machine.batchStart id = .ok stage ↔
      machine.stageAt? id = some stage ∧ stage.role = .batchStart := by
  cases found : machine.stageAt? id with
  | none => simp [batchStart, found]
  | some other =>
    simp only [batchStart, found, Option.some.injEq]
    grind

/-- A join always waits for someone. -/
theorem arrivals_pos {machine : Machine} {id : String} {count : Nat}
    (known : machine.arrivals id = .ok count) : 0 < count := by
  unfold arrivals at known
  cases start : machine.batchStart id with
  | error error => simp [start, Except.map] at known
  | ok stage =>
    simp only [start, Except.map, Except.ok.injEq, Stage.arrivals] at known
    omega

end Machine

end Orchestration
