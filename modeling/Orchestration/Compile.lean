import Orchestration.Draft
import Orchestration.Fault
import Orchestration.Machine.Audit
import Orchestration.Partition.Review

/-! Compiling a partition into a machine: review, draft, audit. No part of a machine is
ever handed over: either every state is there or there is an error. -/

set_option autoImplicit false

namespace Orchestration

inductive CompileError where
  | unknownNode (listing : Listing)
  | repeatedState (id : String)
  | invalidPartition (report : Report Partition.Issue)
  | invalidMachine (report : Report Machine.Issue)
  deriving DecidableEq, Repr

instance : Fault CompileError where
  kind
    | .unknownNode _ => .unknownNode
    | .repeatedState _ => .duplicateStateId
    | .invalidPartition _ => .invalidPartition
    | .invalidMachine _ => .invalidMachine
  message
    | .unknownNode listing => (Partition.Issue.unknownNode listing).message
    | .repeatedState id => s!"State id '{id}' is generated more than once"
    | .invalidPartition report => report.render "Partition validation failed"
    | .invalidMachine report => report.render "Machine verification failed"

/-- The states of a draft. Its first fault counts: a gap, or an id that has been seen. -/
def settle (seen : List String) : List Slot → Except CompileError (List State)
  | [] => .ok []
  | .error listing :: _ => .error (.unknownNode listing)
  | .ok state :: rest =>
    if state.id ∈ seen then .error (.repeatedState state.id)
    else (settle (state.id :: seen) rest).map (state :: ·)

theorem settle_state_eq_ok_iff {seen : List String} {state : State} {rest : List Slot}
    {states : List State} :
    settle seen (.ok state :: rest) = .ok states ↔
      state.id ∉ seen ∧
        ∃ tail, settle (state.id :: seen) rest = .ok tail ∧ states = state :: tail := by
  by_cases old : state.id ∈ seen
  · simp [settle, old]
  · cases settled : settle (state.id :: seen) rest <;>
      simp [settle, old, settled, Except.map, eq_comm]

/-- A draft settles exactly when it has no gap and repeats no id, and then to its states. -/
theorem settle_eq_ok_iff {seen : List String} {slots : List Slot} {states : List State} :
    settle seen slots = .ok states ↔
      slots = states.map .ok ∧ (states.map State.id).Nodup ∧ ∀ state ∈ states, state.id ∉ seen := by
  induction slots generalizing seen states with
  | nil => cases states <;> simp [settle]
  | cons slot rest ih =>
    cases slot with
    | error listing => cases states <;> simp [settle]
    | ok state =>
      simp only [settle_state_eq_ok_iff, ih]
      cases states with
      | nil => simp
      | cons head tail =>
        simp only [List.cons.injEq, List.map_cons, List.nodup_cons, List.mem_map, List.mem_cons]
        grind

def Partition.emit (graph : Graph) (partition : Partition) : Except CompileError Machine :=
  (settle [] (partition.draft graph)).map Machine.mk

def Machine.vet (machine : Machine) : Except CompileError Machine :=
  if machine.audit.hasErrors then .error (.invalidMachine machine.audit) else .ok machine

def Partition.produce (settings : Settings) (graph : Graph) (partition : Partition) :
    Except CompileError Machine :=
  match partition.emit graph with
  | .error error => .error error
  | .ok machine => if settings.auditMachine then machine.vet else .ok machine

def Partition.compile (settings : Settings) (graph : Graph) (partition : Partition) :
    Except CompileError Machine :=
  let report := partition.review settings graph
  if settings.reviewPartition && report.hasErrors then .error (.invalidPartition report)
  else partition.produce settings graph

end Orchestration
