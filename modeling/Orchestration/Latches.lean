import Orchestration.Fault
import Orchestration.Service
import Std.Data.TreeMap

/-! Latches at joins. A runtime that dispatches a batch arms a latch with the number of
branches, reports every branch that reaches the join, and goes on with the one that
releases the latch. Passes through one join are told apart by their epoch. -/

set_option autoImplicit false

namespace Orchestration

structure Passage where
  join : String
  epoch : Nat
  deriving DecidableEq, Repr

instance : Ord Passage :=
  ⟨compareLex (compareOn Passage.join) (compareOn Passage.epoch)⟩

instance : Std.TransOrd Passage :=
  inferInstanceAs (Std.TransCmp (compareLex (compareOn Passage.join) (compareOn Passage.epoch)))

instance : Std.LawfulEqOrd Passage where
  eq_of_compare {left right} same := by
    obtain ⟨join, epoch⟩ := left
    obtain ⟨other, era⟩ := right
    obtain ⟨joins, epochs⟩ := compareLex_eq_eq.1 same
    cases Std.LawfulEqOrd.eq_of_compare joins
    cases Std.LawfulEqOrd.eq_of_compare epochs
    rfl

/-- For every armed latch, how many arrivals come before the one that releases it. -/
structure Latches where
  before : Std.TreeMap Passage Nat := ∅

namespace Latches

inductive Error where
  | nothingExpected (passage : Passage)
  | alreadyArmed (passage : Passage)
  | notArmed (passage : Passage)
  deriving DecidableEq, Repr

def describe (passage : Passage) : String :=
  "'" ++ passage.join ++ "' (epoch " ++ toString passage.epoch ++ ")"

instance : Fault Error where
  kind _ := .invalidState
  message
    | .nothingExpected passage =>
      "Cannot arm join " ++ describe passage ++ " with zero expected arrivals"
    | .alreadyArmed passage => "Join " ++ describe passage ++ " is already armed"
    | .notArmed passage => "Arrival at join " ++ describe passage ++ " which is not armed"

def arm (latches : Latches) (passage : Passage) : Nat → Except Error Latches
  | 0 => .error (.nothingExpected passage)
  | before + 1 =>
    if passage ∈ latches.before then .error (.alreadyArmed passage)
    else .ok ⟨latches.before.insert passage before⟩

/-- One arrival. The one that releases the latch is told so, and the latch is gone. -/
def arrive (latches : Latches) (passage : Passage) : Except Error (Bool × Latches) :=
  match latches.before[passage]? with
  | none => .error (.notArmed passage)
  | some 0 => .ok (true, ⟨latches.before.erase passage⟩)
  | some (before + 1) => .ok (false, ⟨latches.before.insert passage before⟩)

/-- The number of arrivals still missing; zero if the latch is not armed. -/
def pending (latches : Latches) (passage : Passage) : Nat :=
  match latches.before[passage]? with
  | none => 0
  | some before => before + 1

def abandon (latches : Latches) (passage : Passage) : Bool × Latches :=
  (latches.before.contains passage, ⟨latches.before.erase passage⟩)

def armed (latches : Latches) : Nat :=
  latches.before.size

inductive Request where
  | arm (passage : Passage) (expected : Nat)
  | arrive (passage : Passage)
  | abandon (passage : Passage)
  | pending (passage : Passage)
  deriving DecidableEq, Repr

def Request.passage : Request → Passage
  | .arm passage _ => passage
  | .arrive passage => passage
  | .abandon passage => passage
  | .pending passage => passage

inductive Reply where
  | armed
  | arrived (released : Bool)
  | abandoned (existed : Bool)
  | pending (count : Nat)
  | refused (error : Error)
  deriving DecidableEq, Repr

def serve (latches : Latches) : Request → Reply × Latches
  | .arm passage expected =>
    match latches.arm passage expected with
    | .ok next => (.armed, next)
    | .error error => (.refused error, latches)
  | .arrive passage =>
    match latches.arrive passage with
    | .ok (released, next) => (.arrived released, next)
    | .error error => (.refused error, latches)
  | .abandon passage =>
    let (existed, next) := latches.abandon passage
    (.abandoned existed, next)
  | .pending passage => (.pending (latches.pending passage), latches)

def run : Latches → List Request → List (Reply × Latches) :=
  Service.run serve

theorem pending_pos_iff {latches : Latches} {passage : Passage} :
    0 < latches.pending passage ↔ passage ∈ latches.before := by
  rw [← Std.TreeMap.isSome_getElem?_iff_mem, pending]
  cases latches.before[passage]? <;> simp

theorem arm_eq_ok_iff {latches next : Latches} {passage : Passage} {expected : Nat} :
    latches.arm passage expected = .ok next ↔
      0 < expected ∧ latches.pending passage = 0 ∧
        next = ⟨latches.before.insert passage (expected - 1)⟩ := by
  have idle : latches.pending passage = 0 ↔ passage ∉ latches.before := by
    rw [← pending_pos_iff]
    omega
  rw [idle]
  cases expected with
  | zero => simp [arm]
  | succ before => by_cases known : passage ∈ latches.before <;> simp [arm, known, eq_comm]

theorem pending_insert (before : Std.TreeMap Passage Nat) (passage other : Passage) (count : Nat) :
    (Latches.mk (before.insert passage count)).pending other =
      if other = passage then count + 1 else (Latches.mk before).pending other := by
  simp only [pending, Std.TreeMap.getElem?_insert, Std.LawfulEqCmp.compare_eq_iff_eq]
  by_cases same : passage = other <;> simp [same, eq_comm]

theorem pending_erase (before : Std.TreeMap Passage Nat) (passage other : Passage) :
    (Latches.mk (before.erase passage)).pending other =
      if other = passage then 0 else (Latches.mk before).pending other := by
  simp only [pending, Std.TreeMap.getElem?_erase, Std.LawfulEqCmp.compare_eq_iff_eq]
  by_cases same : passage = other <;> simp [same, eq_comm]

theorem arrive_of_pending {latches : Latches} {passage : Passage}
    (missing : 0 < latches.pending passage) :
    ∃ released left, latches.arrive passage = .ok (released, left) := by
  cases found : latches.before[passage]? with
  | none => simp [pending, found] at missing
  | some before => cases before <;> simp [arrive, found]

theorem pending_of_arrive {latches left : Latches} {passage : Passage} {released : Bool}
    (arrived : latches.arrive passage = .ok (released, left)) : 0 < latches.pending passage := by
  cases found : latches.before[passage]? with
  | none => simp [arrive, found] at arrived
  | some before => simp [pending, found]

/-- The arrival that finds one missing releases the latch, and afterwards nothing is
pending; any other arrival leaves one fewer pending. -/
theorem pending_arrive {latches next : Latches} {passage : Passage} {released : Bool}
    (arrived : latches.arrive passage = .ok (released, next)) (other : Passage) :
    (released = true ↔ latches.pending passage = 1) ∧
      next.pending other =
        if other = passage then latches.pending passage - 1 else latches.pending other := by
  cases found : latches.before[passage]? with
  | none => simp [arrive, found] at arrived
  | some before =>
    have missing : latches.pending passage = before + 1 := by simp [pending, found]
    cases before with
    | zero =>
      simp only [arrive, found, Except.ok.injEq, Prod.mk.injEq] at arrived
      obtain ⟨rfl, rfl⟩ := arrived
      simp [pending_erase, missing]
    | succ before =>
      simp only [arrive, found, Except.ok.injEq, Prod.mk.injEq] at arrived
      obtain ⟨rfl, rfl⟩ := arrived
      simp [pending_insert, missing]

theorem serve_refused {latches next : Latches} {request : Request} {error : Error}
    (refused : latches.serve request = (.refused error, next)) : next = latches := by
  cases request <;> simp only [serve] at refused <;> (try split at refused) <;> simp_all

end Latches

end Orchestration
