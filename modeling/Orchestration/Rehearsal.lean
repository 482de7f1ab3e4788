import Orchestration.Latches
import Orchestration.Machine.FanOut

/-! Rehearsing a machine: every fan-out in turn arms its join and lets each branch arrive
once, on one registry of latches and in one epoch. -/

set_option autoImplicit false

namespace Orchestration

namespace Rehearsal

structure Pass where
  start : String
  join : String
  expected : Nat
  released : List Bool
  deriving DecidableEq, Repr

inductive Error where
  | fanOut (error : Machine.FanOutError)
  | latch (error : Latches.Error)
  deriving DecidableEq, Repr

instance : Fault Error where
  kind
    | .fanOut error => Fault.kind error
    | .latch error => Fault.kind error
  message
    | .fanOut error => Fault.message error
    | .latch error => Fault.message error

def arriveAll (passage : Passage) : Nat → Latches → Except Latches.Error (List Bool) × Latches
  | 0, latches => (.ok [], latches)
  | rest + 1, latches =>
    match latches.arrive passage with
    | .error error => (.error error, latches)
    | .ok (released, next) =>
      let (replies, final) := arriveAll passage rest next
      (replies.map (released :: ·), final)

def drive (join : String) (expected : Nat) (latches : Latches) :
    Except Latches.Error (List Bool) × Latches :=
  match latches.arm ⟨join, 1⟩ expected with
  | .error error => (.error error, latches)
  | .ok armed => arriveAll ⟨join, 1⟩ expected armed

def pass (machine : Machine) (start : String) (latches : Latches) : Except Error Pass × Latches :=
  match machine.arrivals start with
  | .error error => (.error (.fanOut error), latches)
  | .ok expected =>
    match machine.joinOf start with
    | .error error => (.error (.fanOut error), latches)
    | .ok join =>
      match drive join expected latches with
      | (.error error, next) => (.error (.latch error), next)
      | (.ok released, next) => (.ok ⟨start, join, expected, released⟩, next)

def passes (machine : Machine) : List String → Latches → List (Except Error Pass) × Latches
  | [], latches => ([], latches)
  | start :: rest, latches =>
    let (result, next) := pass machine start latches
    let (results, final) := passes machine rest next
    (result :: results, final)

end Rehearsal

def Machine.batchStarts (machine : Machine) : List String :=
  (machine.stages.filter (·.role = .batchStart)).map Stage.id

def Machine.rehearse (machine : Machine) :
    List (Except Rehearsal.Error Rehearsal.Pass) × Latches :=
  Rehearsal.passes machine machine.batchStarts {}

end Orchestration
