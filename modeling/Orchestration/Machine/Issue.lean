import Orchestration.Machine.Basic
import Orchestration.Report

/-! What can be wrong with a machine and how each issue reads. -/

set_option autoImplicit false

namespace Orchestration.Machine

/-- What keeps a batch start from being a fan-out to one join. -/
inductive FanOutDefect where
  | noBranch
  | unmarkedBranches (count : Nat)
  | notJoin (target : String)
  | mixedBranches
  | repeatedBranch (target : String)
  | notTask (target : String)
  | diverging
  | convergesOn (target : String)
  deriving DecidableEq, Repr

def FanOutDefect.text : FanOutDefect → String
  | noBranch => "has no CONTINUE edge"
  | unmarkedBranches count => s!"has {count} unmarked CONTINUE edges"
  | notJoin target => s!"continues to '{target}' which is not a join"
  | mixedBranches => "mixes parallel and unmarked CONTINUE edges"
  | repeatedBranch target => s!"dispatches '{target}' more than once"
  | notTask target => s!"fans out to '{target}' which is not a task state"
  | diverging => "has branches that do not converge on a single join"
  | convergesOn target => s!"has branches that converge on '{target}' which is not a join"

inductive Issue where
  | repeatedState (id : String) (uses : Nat)
  | notFinal (id : String)
  | strayFinal (id : String)
  | finalCount (ending : Ending) (found : Nat)
  | unknownTarget (state : String) (on : Event) (target : String)
  | errorTarget (state target : String)
  | errorCount (state : String) (count : Nat)
  | parallelEdge (state : String) (on : Event)
  | continueCount (state : String) (count : Nat)
  | fanOut (start : String) (defect : FanOutDefect)
  | unreachedJoin (state : String)
  deriving DecidableEq, Repr

namespace Issue

def category : Issue → Category
  | repeatedState _ _ => .duplicateStateId
  | notFinal _ => .finalStates
  | strayFinal _ => .finalStates
  | finalCount _ _ => .finalStates
  | unknownTarget _ _ _ => .unknownTarget
  | errorTarget _ _ => .errorRouting
  | errorCount _ _ => .errorRouting
  | parallelEdge _ _ => .parallelMisuse
  | continueCount _ _ => .transitionShape
  | fanOut _ _ => .transitionShape
  | unreachedJoin _ => .unreachableState

def message : Issue → String
  | repeatedState id uses => s!"State id '{id}' is used {uses} times"
  | notFinal id => s!"State '{id}' must be final"
  | strayFinal id => s!"Unexpected final state '{id}'"
  | finalCount ending found =>
    "Expected exactly one final '" ++ ending.id ++ s!"' state, found {found}"
  | unknownTarget state on target =>
    s!"State '{state}' " ++ on.name ++ s!" targets unknown state '{target}'"
  | errorTarget state target => s!"State '{state}' routes ERROR to '{target}' instead of failure"
  | errorCount state count => s!"State '{state}' has {count} ERROR edge(s); expected exactly one"
  | parallelEdge state on =>
    s!"State '{state}' marks a non-fan-out " ++ on.name ++ " edge as parallel"
  | continueCount state count =>
    s!"State '{state}' has {count} CONTINUE edge(s); expected exactly one"
  | fanOut start defect => s!"Batch start '{start}' " ++ defect.text
  | unreachedJoin state => s!"Join '{state}' is never reached"

def states : Issue → List String
  | repeatedState id _ => [id]
  | notFinal id => [id]
  | strayFinal id => [id]
  | finalCount ending _ => [ending.id]
  | unknownTarget state _ target => [state, target]
  | errorTarget state _ => [state]
  | errorCount state _ => [state]
  | parallelEdge state _ => [state]
  | continueCount state _ => [state]
  | fanOut start _ => [start]
  | unreachedJoin state => [state]

instance : Reportable Issue where
  category := category
  message := message
  nodes _ := []
  entries _ := []
  states := states

def severity : Issue → Severity
  | unreachedJoin _ => .warning
  | _ => .error

end Issue

end Orchestration.Machine
