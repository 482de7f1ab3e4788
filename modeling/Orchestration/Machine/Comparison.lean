import Orchestration.Machine.Basic

/-! Comparing two machines state by state. -/

set_option autoImplicit false

namespace Orchestration

structure StateComparison where
  same : Bool
  changes : Option (List Bool)
  deriving DecidableEq, Repr

namespace State

def changes? : State → State → Option (List Bool)
  | .stage left, .stage right =>
    some (List.zipWith (fun first second => decide (first ≠ second))
      left.transitions right.transitions)
  | _, _ => none

def compare (left right : State) : StateComparison :=
  ⟨decide (left = right), left.changes? right⟩

theorem changes?_self (stage : Stage) :
    (State.stage stage).changes? (.stage stage) =
      some (List.replicate stage.transitions.length false) := by
  simp [changes?, List.zipWith_self, List.map_const']

end State

def Machine.compare (left right : Machine) : List StateComparison :=
  List.zipWith State.compare left.states right.states

end Orchestration
