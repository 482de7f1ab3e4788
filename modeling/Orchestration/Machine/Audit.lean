import Orchestration.Ids
import Orchestration.Machine.Issue

/-! Auditing a machine: distinct ids, one final state for each ending, known targets, one
error edge to failure from every stage, and fan-outs that meet in one join. -/

set_option autoImplicit false

namespace Orchestration.Machine

def repeatedIssues (machine : Machine) : List Issue :=
  (Ids.repeated machine.ids).map fun (id, uses) => .repeatedState id uses

def finalIssue? : State → Option Issue
  | .stage stage =>
    if stage.id = Ending.success.id ∨ stage.id = Ending.failure.id then some (.notFinal stage.id)
    else none
  | .final id =>
    if id = Ending.success.id ∨ id = Ending.failure.id then none else some (.strayFinal id)

def finalCount (machine : Machine) (ending : Ending) : Nat :=
  machine.states.count (.final ending.id)

def endingIssue? (machine : Machine) (ending : Ending) : Option Issue :=
  if machine.finalCount ending = 1 then none
  else some (.finalCount ending (machine.finalCount ending))

def transitionIssues (machine : Machine) (stage : Stage) (transition : Transition) : List Issue :=
  (if transition.target ∈ machine.ids then []
    else [.unknownTarget stage.id transition.on transition.target]) ++
  (if transition.on = .error ∧ transition.target ≠ Ending.failure.id then
    [.errorTarget stage.id transition.target] else []) ++
  (if transition.parallel ∧ (transition.on = .error ∨ stage.role ≠ .batchStart) then
    [.parallelEdge stage.id transition.on] else [])

/-- The defects of single branches: a branch already dispatched, or one that leads to a
stage without a task. A target that is no stage is passed over; if it is no state either,
that is an issue of the transition. -/
def branchDefects (machine : Machine) (seen : List String) : List String → List FanOutDefect
  | [] => []
  | target :: rest =>
    (if target ∈ seen then [.repeatedBranch target]
      else match machine.role? target with
        | some .task | none => []
        | some _ => [.notTask target]) ++
    branchDefects machine (target :: seen) rest

def convergence (machine : Machine) (branches : List String) : List String :=
  let tasks := (branches.filterMap machine.firstStage?).filter (·.role = .task)
  Ids.ascending (tasks.flatMap Stage.continueTargets)

def convergenceDefect? (machine : Machine) (branches : List String) : Option FanOutDefect :=
  match machine.convergence branches with
  | [] => none
  | [join] => if machine.role? join = some .batchJoin then none else some (.convergesOn join)
  | _ => some .diverging

/-- The defects of a batch start. An empty batch goes straight to its join by one unmarked
edge; any other has only marked edges, to distinct tasks that go on to one join. -/
def fanOutDefects (machine : Machine) (start : Stage) : List FanOutDefect :=
  let branches := start.continues
  let marked := branches.countP Transition.parallel
  if branches = [] then [.noBranch]
  else if marked = 0 then
    match branches with
    | [branch] =>
      if machine.role? branch.target = some .batchJoin then [] else [.notJoin branch.target]
    | _ => [.unmarkedBranches branches.length]
  else if marked ≠ branches.length then [.mixedBranches]
  else
    branchDefects machine [] start.continueTargets ++
      (machine.convergenceDefect? start.continueTargets).toList

def shapeIssues (machine : Machine) (stage : Stage) : List Issue :=
  (if stage.failures.length = 1 then [] else [.errorCount stage.id stage.failures.length]) ++
  (if stage.role = .batchStart then (machine.fanOutDefects stage).map (.fanOut stage.id)
    else if stage.continues.length = 1 then []
    else [.continueCount stage.id stage.continues.length])

def stageIssues (machine : Machine) (stage : Stage) : List Issue :=
  stage.transitions.flatMap (machine.transitionIssues stage) ++ machine.shapeIssues stage

/-- A join that no transition targets. Other stages may be where a machine is entered. -/
def unreachedIssue? (machine : Machine) (stage : Stage) : Option Issue :=
  if stage.role = .batchJoin ∧ stage.id ∉ machine.targets then some (.unreachedJoin stage.id)
  else none

def issues (machine : Machine) : List Issue :=
  machine.repeatedIssues ++
    machine.states.filterMap finalIssue? ++
    [.success, .failure].filterMap machine.endingIssue? ++
    machine.stages.flatMap machine.stageIssues ++
    machine.stages.filterMap machine.unreachedIssue?

def audit (machine : Machine) : Report Issue :=
  .ofIssues (some ·.severity) machine.issues

end Orchestration.Machine
