/-! Faults: the reasons for which an operation refuses to answer. Each operation has its
own type of faults; this module says what all of them have in common. -/

set_option autoImplicit false

namespace Orchestration

inductive Fault.Kind where
  | invalidNode
  | unknownNode
  | duplicateNode
  | duplicateStateId
  | invalidPartition
  | invalidMachine
  | invalidState
  | unknownState
  deriving DecidableEq, Repr

def Fault.Kind.name : Fault.Kind → String
  | invalidNode => "InvalidNode"
  | unknownNode => "UnknownNode"
  | duplicateNode => "DuplicateNode"
  | duplicateStateId => "DuplicateStateId"
  | invalidPartition => "InvalidPartition"
  | invalidMachine => "InvalidMachine"
  | invalidState => "InvalidState"
  | unknownState => "UnknownState"

/-- Faults have a kind to act on and a text to read. -/
class Fault (φ : Type) where
  kind : φ → Fault.Kind
  message : φ → String

/-- The text as it is handed on: a notice is zero-terminated, so it ends before the first
U+0000 that an id may have brought in. -/
def Fault.notice {φ : Type} [Fault φ] (fault : φ) : String :=
  String.ofList ((Fault.message fault).toList.takeWhile (·.toNat ≠ 0))

theorem Fault.notice_eq_message {φ : Type} [Fault φ] {fault : φ}
    (whole : ∀ c ∈ (Fault.message fault).toList, c.toNat ≠ 0) :
    Fault.notice fault = Fault.message fault := by
  have kept : ∀ text : List Char, (∀ c ∈ text, c.toNat ≠ 0) →
      text.takeWhile (·.toNat ≠ 0) = text := by
    intro text free
    induction text with
    | nil => rfl
    | cons c rest ih => simp_all
  rw [notice, kept _ whole, String.ofList_toList]

end Orchestration
