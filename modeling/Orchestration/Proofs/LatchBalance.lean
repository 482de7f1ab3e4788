import Mathlib.Algebra.BigOperators.Group.List.Lemmas
import Mathlib.Algebra.Ring.Nat
import Orchestration.Proofs.LatchHistory

/-! The balance of latches. Every arrival that an arming asked for has taken place, is still missing at an
armed latch, or was given up with a latch that was dropped; and every latch that was armed was released,
was dropped, or is armed still. -/

set_option autoImplicit false

namespace Orchestration.Latches

open Service (history exchange after)

variable {latches next : Latches} {passage : Passage}

def waiting (latches : Latches) : List Passage :=
  latches.before.keys

theorem mem_waiting : passage ∈ latches.waiting ↔ 0 < latches.pending passage := by
  rw [waiting, Std.TreeMap.mem_keys, pending_pos_iff]

theorem nodup_waiting (latches : Latches) : latches.waiting.Nodup :=
  Std.TreeMap.nodup_keys

theorem length_waiting (latches : Latches) : latches.waiting.length = latches.armed :=
  Std.TreeMap.length_keys

/-- The arrivals that are missing at all armed latches together. -/
def outstanding (latches : Latches) : Nat :=
  (latches.waiting.map latches.pending).sum

def waitingBeside (latches : Latches) (passage : Passage) : List Passage :=
  latches.waiting.filter (· ≠ passage)

theorem waiting_perm (latches : Latches) (passage : Passage) :
    latches.waiting.Perm
      ((if 0 < latches.pending passage then [passage] else []) ++ latches.waitingBeside passage) := by
  have apart : passage ∉ latches.waitingBeside passage := by simp [waitingBeside]
  apply (List.perm_ext_iff_of_nodup latches.nodup_waiting ?_).2
  · intro other
    simp only [waitingBeside, List.mem_append, List.mem_filter, mem_waiting, decide_eq_true_eq]
    by_cases same : other = passage
    · subst same
      by_cases armed : 0 < latches.pending other <;> simp [armed]
    · by_cases armed : 0 < latches.pending passage <;> simp [armed, same]
  · have rest : (latches.waitingBeside passage).Nodup := latches.nodup_waiting.filter _
    by_cases armed : 0 < latches.pending passage
    · simpa [armed] using ⟨apart, rest⟩
    · simpa [armed] using rest

theorem armed_eq_add (latches : Latches) (passage : Passage) :
    latches.armed =
      (if 0 < latches.pending passage then 1 else 0) + (latches.waitingBeside passage).length := by
  rw [← length_waiting, (latches.waiting_perm passage).length_eq, List.length_append]
  by_cases armed : 0 < latches.pending passage <;> simp [armed]

theorem outstanding_eq_add (latches : Latches) (passage : Passage) :
    latches.outstanding =
      latches.pending passage + ((latches.waitingBeside passage).map latches.pending).sum := by
  rw [outstanding, ((latches.waiting_perm passage).map latches.pending).sum_eq, List.map_append,
    List.sum_append]
  by_cases armed : 0 < latches.pending passage
  · simp [armed]
  · have none : latches.pending passage = 0 := by omega
    simp [none]

section

variable (elsewhere : ∀ other, other ≠ passage → next.pending other = latches.pending other)
include elsewhere

theorem waitingBeside_perm : (next.waitingBeside passage).Perm (latches.waitingBeside passage) := by
  apply (List.perm_ext_iff_of_nodup (next.nodup_waiting.filter _) (latches.nodup_waiting.filter _)).2
  intro other
  simp only [List.mem_filter, mem_waiting, decide_eq_true_eq]
  constructor
  · rintro ⟨armed, apart⟩
    exact ⟨elsewhere other apart ▸ armed, apart⟩
  · rintro ⟨armed, apart⟩
    exact ⟨(elsewhere other apart).symm ▸ armed, apart⟩

/-- Where only one latch changes, the number of armed latches changes with it. -/
theorem armed_balance :
    next.armed + (if 0 < latches.pending passage then 1 else 0) =
      latches.armed + (if 0 < next.pending passage then 1 else 0) := by
  rw [next.armed_eq_add passage, latches.armed_eq_add passage, (waitingBeside_perm elsewhere).length_eq]
  omega

/-- Where only one latch changes, the arrivals missing at all latches change by as much. -/
theorem outstanding_balance :
    next.outstanding + latches.pending passage = latches.outstanding + next.pending passage := by
  have kept : (next.waitingBeside passage).map next.pending =
      (next.waitingBeside passage).map latches.pending := by
    apply List.map_congr_left
    intro other member
    exact elsewhere other (of_decide_eq_true (List.mem_filter.1 member).2)
  rw [next.outstanding_eq_add passage, latches.outstanding_eq_add passage, kept,
    ((waitingBeside_perm elsewhere).map latches.pending).sum_eq]
  omega

end

def Exchange.expected : Exchange → Nat
  | ⟨.arm _ expected, .armed⟩ => expected
  | _ => 0

def Exchange.isArrival : Exchange → Bool
  | ⟨_, .arrived _⟩ => true
  | _ => false

def Exchange.forgone (missing : Nat) : Exchange → Nat
  | ⟨_, .abandoned true⟩ => missing
  | _ => 0

/-- The arrivals that were missing at the latches that requests dropped, each counted when it was dropped. -/
def forgone (latches : Latches) : List Request → Nat
  | [] => 0
  | request :: rest =>
    Exchange.forgone (latches.pending request.passage) (exchange serve latches request) +
      (latches.serve request).2.forgone rest

theorem forgone_concat (latches : Latches) (requests : List Request) (request : Request) :
    latches.forgone (requests ++ [request]) = latches.forgone requests +
      Exchange.forgone ((after serve latches requests).pending request.passage)
        (exchange serve (after serve latches requests) request) := by
  induction requests generalizing latches with
  | nil => simp [forgone, after]
  | cons first rest ih =>
    simp only [List.cons_append, forgone, ih, Service.after_cons, Nat.add_assoc]

/-- The reply to a request that drops a latch says whether there was one. -/
theorem existed_of_abandoned {request : Request} {existed : Bool}
    (dropped : (exchange serve latches request).reply = .abandoned existed) :
    existed = true ↔ 0 < latches.pending request.passage := by
  cases request with
  | arm passage expected =>
    cases armed : latches.arm passage expected <;> simp [exchange, serve, armed] at dropped
  | arrive passage =>
    cases arrived : latches.arrive passage <;> simp [exchange, serve, arrived] at dropped
  | abandon passage =>
    rw [pending_pos_iff, Std.TreeMap.mem_iff_contains, ← Reply.abandoned.inj dropped]
    rfl
  | pending passage => cases dropped

/-- What one latch gains and loses by an exchange at its passage. -/
theorem Effect.balance {exchange : Exchange} {missing left : Nat} (effect : Effect passage exchange missing left)
    (here : exchange.request.passage = passage)
    (dropped : ∀ existed, exchange.reply = .abandoned existed → (existed = true ↔ 0 < missing)) :
    ((if 0 < left then 1 else 0) + (if exchange.reply = .arrived true then 1 else 0) +
        (if exchange.reply = .abandoned true then 1 else 0) =
      (if 0 < missing then 1 else 0) + if exchange.reply = .armed then 1 else 0) ∧
    left + (if exchange.isArrival then 1 else 0) + exchange.forgone missing = missing + exchange.expected := by
  cases effect with
  | arm before => simp [Exchange.expected, Exchange.isArrival, Exchange.forgone]
  | arrive missing => simp [Exchange.expected, Exchange.isArrival, Exchange.forgone]
  | release => simp [Exchange.expected, Exchange.isArrival, Exchange.forgone]
  | abandon missing existed =>
    have armed := dropped existed rfl
    cases existed with
    | true => simp [Exchange.expected, Exchange.isArrival, Exchange.forgone, armed.1]
    | false =>
      have none : missing = 0 := by simpa using armed
      simp [Exchange.expected, Exchange.isArrival, Exchange.forgone, none]
  | ask missing => simp [Exchange.expected, Exchange.isArrival, Exchange.forgone]
  | refuse request error missing => simp [Exchange.expected, Exchange.isArrival, Exchange.forgone]
  | other missing apart => exact absurd here apart

structure Balanced (log : List Exchange) (given : Nat) (latches : Latches) : Prop where
  armings : log.countP (·.reply = .armed) =
    log.countP (·.reply = .arrived true) + log.countP (·.reply = .abandoned true) + latches.armed
  arrivals : (log.map Exchange.expected).sum = log.countP Exchange.isArrival + latches.outstanding + given

theorem Balanced.concat {log : List Exchange} {given : Nat} (balanced : Balanced log given latches)
    (request : Request) :
    Balanced (log ++ [exchange serve latches request])
      (given + Exchange.forgone (latches.pending request.passage) (exchange serve latches request))
      (latches.serve request).2 := by
  have elsewhere : ∀ other, other ≠ request.passage →
      (latches.serve request).2.pending other = latches.pending other :=
    fun other apart => pending_serve_of_ne (Ne.symm apart)
  obtain ⟨armed, missing⟩ := (effect_serve latches request request.passage).balance rfl
    fun _ => existed_of_abandoned
  have armings := armed_balance elsewhere
  have arrivals := outstanding_balance elsewhere
  have armingsBefore := balanced.armings
  have arrivalsBefore := balanced.arrivals
  constructor
  · simp only [List.countP_append, List.countP_singleton, decide_eq_true_eq]
    omega
  · simp only [List.countP_append, List.countP_singleton, List.map_append, List.map_cons, List.map_nil,
      List.sum_append, List.sum_singleton]
    omega

/-- Whatever is asked of latches that are idle at first, and with the passages in whatever order: as many
latches were armed as were released, were dropped or are still armed, and as many arrivals were asked for
as took place, are still missing or were missing where a latch was dropped. -/
theorem no_arrival_lost (requests : List Request) :
    (history serve {} requests).countP (·.reply = .armed) =
        (history serve {} requests).countP (·.reply = .arrived true) +
          (history serve {} requests).countP (·.reply = .abandoned true) + (after serve {} requests).armed ∧
      ((history serve {} requests).map Exchange.expected).sum =
        (history serve {} requests).countP Exchange.isArrival + (after serve {} requests).outstanding +
          forgone {} requests := by
  suffices balanced : Balanced (history serve {} requests) (forgone {} requests) (after serve {} requests) from
    ⟨balanced.armings, balanced.arrivals⟩
  induction requests using List.reverseRecOn with
  | nil => exact ⟨rfl, rfl⟩
  | append_singleton requests request ih =>
    rw [Service.history_concat, Service.after_concat, forgone_concat]
    exact ih.concat request

/-- A latch is dropped with two arrivals missing and armed again for one, another one waits for its last
arrival, and a second request to drop finds nothing. -/
example :
    let requests : List Request := [.arm ⟨"join", 0⟩ 3, .arrive ⟨"join", 0⟩, .arm ⟨"join", 1⟩ 2,
      .abandon ⟨"join", 0⟩, .abandon ⟨"join", 0⟩, .arm ⟨"join", 0⟩ 1, .arrive ⟨"join", 0⟩, .arrive ⟨"join", 1⟩]
    ((history serve {} requests).map Exchange.expected).sum = 6 ∧
      (history serve {} requests).countP Exchange.isArrival = 3 ∧
      (after serve {} requests).outstanding = 1 ∧ forgone {} requests = 2 := by
  decide +kernel

end Orchestration.Latches
