import Orchestration.Latches
import Mathlib.Data.List.Induction

/-! What latches remember of their requests. A registry keeps one number for every armed latch; the
history of all requests and replies determines which latches those are and what the numbers say. -/

set_option autoImplicit false

namespace Orchestration.Latches

open Service (history exchange after)

abbrev Exchange := Service.Exchange Request Reply

def Exchange.Arms (passage : Passage) (exchange : Exchange) : Prop :=
  ∃ expected, exchange = ⟨.arm passage expected, .armed⟩

def Exchange.Arrives (passage : Passage) (exchange : Exchange) : Prop :=
  exchange = ⟨.arrive passage, .arrived false⟩ ∨ exchange = ⟨.arrive passage, .arrived true⟩

instance (passage : Passage) : DecidablePred (Exchange.Arrives passage) :=
  fun exchange => inferInstanceAs (Decidable (exchange = _ ∨ exchange = _))

/-- The latch of a passage was released or dropped. -/
def Exchange.Ends (passage : Passage) (exchange : Exchange) : Prop :=
  exchange = ⟨.arrive passage, .arrived true⟩ ∨
    ∃ existed, exchange = ⟨.abandon passage, .abandoned existed⟩

/-- The latch of a passage was armed for some arrivals, and neither armed again, released nor
dropped by anything since. -/
structure OpenSince (log : List Exchange) (passage : Passage) (expected : Nat)
    (since : List Exchange) : Prop where
  armed : ∃ before, log = before ++ ⟨.arm passage expected, .armed⟩ :: since
  latest : ∀ exchange ∈ since, ¬ exchange.Arms passage
  lasting : ∀ exchange ∈ since, ¬ exchange.Ends passage

def Live (log : List Exchange) (passage : Passage) : Prop :=
  ∃ expected since, OpenSince log passage expected since

def arrivals (log : List Exchange) (passage : Passage) : Nat :=
  log.countP (Exchange.Arrives passage)

theorem arrivals_concat (log : List Exchange) (passage : Passage) (last : Exchange) :
    arrivals (log ++ [last]) passage =
      arrivals log passage + if last.Arrives passage then 1 else 0 := by
  simp [arrivals, List.countP_append, List.countP_singleton]

theorem openSince_concat_iff {log since : List Exchange} {passage : Passage} {expected : Nat}
    {last : Exchange} :
    OpenSince (log ++ [last]) passage expected since ↔
      last = ⟨.arm passage expected, .armed⟩ ∧ since = [] ∨
        ∃ earlier, since = earlier ++ [last] ∧ ¬ last.Arms passage ∧ ¬ last.Ends passage ∧
          OpenSince log passage expected earlier := by
  constructor
  · rintro ⟨⟨before, split⟩, latest, lasting⟩
    rcases since.eq_nil_or_concat with rfl | ⟨earlier, final, rfl⟩
    · exact .inl ⟨(List.append_inj' split rfl).2 |> List.singleton_inj.1, rfl⟩
    · rw [List.concat_eq_append] at split latest lasting ⊢
      rw [← List.cons_append, ← List.append_assoc] at split
      obtain ⟨rfl, same⟩ := List.append_inj' split rfl
      obtain rfl := List.singleton_inj.1 same
      refine .inr ⟨earlier, rfl, latest _ (by simp), lasting _ (by simp), ⟨before, rfl⟩, ?_, ?_⟩
      · exact fun exchange mem => latest exchange (List.mem_append_left _ mem)
      · exact fun exchange mem => lasting exchange (List.mem_append_left _ mem)
  · rintro (⟨rfl, rfl⟩ | ⟨earlier, rfl, arms, ends, ⟨before, rfl⟩, latest, lasting⟩)
    · exact ⟨⟨log, rfl⟩, by simp, by simp⟩
    · refine ⟨⟨before, by simp⟩, ?_, ?_⟩
      · exact List.forall_mem_append.2 ⟨latest, List.forall_mem_singleton.2 arms⟩
      · exact List.forall_mem_append.2 ⟨lasting, List.forall_mem_singleton.2 ends⟩

theorem live_concat_iff {log : List Exchange} {passage : Passage} {last : Exchange} :
    Live (log ++ [last]) passage ↔
      last.Arms passage ∨ ¬ last.Ends passage ∧ Live log passage := by
  simp only [Live, openSince_concat_iff]
  constructor
  · rintro ⟨expected, since, ⟨arms, -⟩ | ⟨earlier, -, -, ends, opened⟩⟩
    · exact .inl ⟨expected, arms⟩
    · exact .inr ⟨ends, expected, earlier, opened⟩
  · intro later
    by_cases arms : last.Arms passage
    · obtain ⟨expected, rfl⟩ := arms
      exact ⟨expected, [], .inl ⟨rfl, rfl⟩⟩
    · obtain ⟨ends, expected, earlier, opened⟩ := later.resolve_left arms
      exact ⟨expected, _, .inr ⟨earlier, rfl, arms, ends, opened⟩⟩

/-- What a request does to the latch of a passage: how many arrivals were missing before it and
after it. -/
inductive Effect (passage : Passage) : Exchange → Nat → Nat → Prop where
  | arm (before : Nat) : Effect passage ⟨.arm passage (before + 1), .armed⟩ 0 (before + 1)
  | arrive (missing : Nat) :
      Effect passage ⟨.arrive passage, .arrived false⟩ (missing + 2) (missing + 1)
  | release : Effect passage ⟨.arrive passage, .arrived true⟩ 1 0
  | abandon (missing : Nat) (existed : Bool) :
      Effect passage ⟨.abandon passage, .abandoned existed⟩ missing 0
  | ask (missing : Nat) : Effect passage ⟨.pending passage, .pending missing⟩ missing missing
  | refuse (request : Request) (error : Error) (missing : Nat) :
      Effect passage ⟨request, .refused error⟩ missing missing
  | other {exchange : Exchange} (missing : Nat) (apart : exchange.request.passage ≠ passage) :
      Effect passage exchange missing missing

theorem pending_serve_of_ne {latches : Latches} {request : Request} {passage : Passage}
    (apart : request.passage ≠ passage) :
    (latches.serve request).2.pending passage = latches.pending passage := by
  cases request with
  | arm elsewhere expected =>
    cases armed : latches.arm elsewhere expected with
    | error error => simp only [serve, armed]
    | ok next =>
      obtain ⟨-, -, rfl⟩ := arm_eq_ok_iff.1 armed
      simp only [serve, armed, pending_insert, if_neg (Ne.symm apart : passage ≠ elsewhere)]
  | arrive elsewhere =>
    cases arrived : latches.arrive elsewhere with
    | error error => simp only [serve, arrived]
    | ok outcome =>
      simp only [serve, arrived, (pending_arrive arrived passage).2,
        if_neg (Ne.symm apart : passage ≠ elsewhere)]
  | abandon elsewhere =>
    simp only [serve, abandon, pending_erase, if_neg (Ne.symm apart : passage ≠ elsewhere)]
  | pending elsewhere => rfl

theorem effect_arm (latches : Latches) (passage : Passage) (expected : Nat) :
    Effect passage (exchange serve latches (.arm passage expected)) (latches.pending passage)
      ((latches.serve (.arm passage expected)).2.pending passage) := by
  cases armed : latches.arm passage expected with
  | error error =>
    simp only [exchange, serve, armed]
    exact .refuse _ error _
  | ok next =>
    obtain ⟨positive, idle, rfl⟩ := arm_eq_ok_iff.1 armed
    obtain ⟨before, rfl⟩ := Nat.exists_eq_succ_of_ne_zero (Nat.pos_iff_ne_zero.1 positive)
    simp only [exchange, serve, armed, pending_insert, idle, if_true]
    exact .arm before

theorem effect_arrive (latches : Latches) (passage : Passage) :
    Effect passage (exchange serve latches (.arrive passage)) (latches.pending passage)
      ((latches.serve (.arrive passage)).2.pending passage) := by
  cases arrived : latches.arrive passage with
  | error error =>
    simp only [exchange, serve, arrived]
    exact .refuse _ error _
  | ok outcome =>
    obtain ⟨released, next⟩ := outcome
    have waiting := pending_of_arrive arrived
    obtain ⟨releases, left⟩ := pending_arrive arrived passage
    rw [if_pos rfl] at left
    simp only [exchange, serve, arrived, left]
    cases released with
    | true =>
      rw [releases.1 rfl]
      exact .release
    | false =>
      have several : latches.pending passage ≠ 1 := fun one => Bool.false_ne_true (releases.2 one)
      have split : latches.pending passage = latches.pending passage - 2 + 2 := by omega
      rw [split]
      exact .arrive _

theorem effect_serve (latches : Latches) (request : Request) (passage : Passage) :
    Effect passage (exchange serve latches request) (latches.pending passage)
      ((latches.serve request).2.pending passage) := by
  by_cases here : request.passage = passage
  · subst here
    cases request with
    | arm passage expected => exact effect_arm latches passage expected
    | arrive passage => exact effect_arrive latches passage
    | abandon passage =>
      simp only [exchange, serve, abandon, Request.passage, pending_erase, if_true]
      exact .abandon _ _
    | pending passage => exact .ask _
  · rw [pending_serve_of_ne here]
    exact .other _ here

structure Recalls (log : List Exchange) (passage : Passage) (missing : Nat) : Prop where
  counted : ∀ expected since, OpenSince log passage expected since →
    missing + arrivals since passage = expected ∧ 0 < missing
  idle : ¬ Live log passage → missing = 0

namespace Recalls

variable {log : List Exchange} {passage : Passage} {missing left : Nat} {last : Exchange}

theorem live_iff (recalls : Recalls log passage missing) : Live log passage ↔ 0 < missing := by
  constructor
  · rintro ⟨expected, since, opened⟩
    exact (recalls.counted _ _ opened).2
  · intro positive
    by_contra idle
    exact Nat.pos_iff_ne_zero.1 positive (recalls.idle idle)

theorem concat_of_arms (before : Nat) :
    Recalls (log ++ [⟨.arm passage (before + 1), .armed⟩]) passage (before + 1) where
  counted expected since opened := by
    obtain ⟨same, rfl⟩ | ⟨earlier, -, latest, -, -⟩ := openSince_concat_iff.1 opened
    · obtain rfl : before + 1 = expected := by simpa using same
      exact ⟨rfl, before.succ_pos⟩
    · exact absurd ⟨_, rfl⟩ latest
  idle dead := absurd (live_concat_iff.2 (.inl ⟨_, rfl⟩)) dead

theorem concat_of_ends (ends : last.Ends passage) (arms : ¬ last.Arms passage) :
    Recalls (log ++ [last]) passage 0 where
  counted expected since opened := by
    obtain ⟨rfl, -⟩ | ⟨earlier, -, -, lasting, -⟩ := openSince_concat_iff.1 opened
    · exact absurd ⟨_, rfl⟩ arms
    · exact absurd ends lasting
  idle _ := rfl

theorem concat_of_lasting (recalls : Recalls log passage missing)
    (arms : ¬ last.Arms passage) (ends : ¬ last.Ends passage)
    (balance : left + (if last.Arrives passage then 1 else 0) = missing)
    (kept : 0 < missing → 0 < left) : Recalls (log ++ [last]) passage left where
  counted expected since opened := by
    obtain ⟨rfl, -⟩ | ⟨earlier, rfl, -, -, opened⟩ := openSince_concat_iff.1 opened
    · exact absurd ⟨_, rfl⟩ arms
    · obtain ⟨sum, positive⟩ := recalls.counted _ _ opened
      rw [arrivals_concat]
      exact ⟨by omega, kept positive⟩
  idle dead := by
    have := recalls.idle fun live => dead (live_concat_iff.2 (.inr ⟨ends, live⟩))
    omega

theorem concat (recalls : Recalls log passage missing) (effect : Effect passage last missing left) :
    Recalls (log ++ [last]) passage left := by
  cases effect with
  | arm before => exact concat_of_arms before
  | arrive missing =>
    exact recalls.concat_of_lasting (by simp [Exchange.Arms]) (by simp [Exchange.Ends])
      (by simp [Exchange.Arrives]) (by omega)
  | release => exact concat_of_ends (.inl rfl) (by simp [Exchange.Arms])
  | abandon missing existed => exact concat_of_ends (.inr ⟨_, rfl⟩) (by simp [Exchange.Arms])
  | ask | refuse =>
    exact recalls.concat_of_lasting (by simp [Exchange.Arms]) (by simp [Exchange.Ends])
      (by simp [Exchange.Arrives]) id
  | other missing apart =>
    refine recalls.concat_of_lasting ?_ ?_ ?_ id
    · rintro ⟨expected, rfl⟩
      exact apart rfl
    · rintro (rfl | ⟨existed, rfl⟩) <;> exact apart rfl
    · rw [if_neg, Nat.add_zero]
      rintro (rfl | rfl) <;> exact apart rfl

end Recalls

theorem recalls_history (requests : List Request) (passage : Passage) :
    Recalls (history serve {} requests) passage ((after serve {} requests).pending passage) := by
  induction requests using List.reverseRecOn with
  | nil =>
    refine ⟨?_, fun _ => rfl⟩
    rintro expected since ⟨⟨before, split⟩, -, -⟩
    simp [Service.history_nil] at split
  | append_singleton requests request ih =>
    rw [Service.history_concat, Service.after_concat]
    exact ih.concat (effect_serve _ _ _)

def Refuses (latches : Latches) (request : Request) : Prop :=
  ∃ error, (latches.serve request).1 = .refused error ∧ Fault.kind error = .invalidState

structure Remembers (log : List Exchange) (latches : Latches) : Prop where
  arm_refused : ∀ passage expected,
    latches.Refuses (.arm passage expected) ↔ expected = 0 ∨ Live log passage
  arrive_refused : ∀ passage, latches.Refuses (.arrive passage) ↔ ¬ Live log passage
  arrive_releases : ∀ passage expected since, OpenSince log passage expected since →
    (latches.serve (.arrive passage)).1 = .arrived (arrivals since passage + 1 = expected)
  pending_live : ∀ passage expected since, OpenSince log passage expected since →
    ∃ count, (latches.serve (.pending passage)).1 = .pending count ∧
      count = expected - arrivals since passage ∧ 1 ≤ count
  pending_idle : ∀ passage, ¬ Live log passage →
    (latches.serve (.pending passage)).1 = .pending 0
  abandoned : ∀ passage, ∃ existed,
    (latches.serve (.abandon passage)).1 = .abandoned existed ∧
      (existed = true ↔ Live log passage)
  armed : ∃ passages : List Passage, passages.Nodup ∧
    (∀ passage, passage ∈ passages ↔ Live log passage) ∧ latches.armed = passages.length
  unchanged : ∀ request passage, latches.Refuses request ∨ request.passage ≠ passage →
    (Live (log ++ [exchange serve latches request]) passage ↔ Live log passage) ∧
      (latches.serve request).2.pending passage = latches.pending passage

theorem refuses_arm_iff {latches : Latches} {passage : Passage} {expected : Nat} :
    latches.Refuses (.arm passage expected) ↔ expected = 0 ∨ 0 < latches.pending passage := by
  cases armed : latches.arm passage expected with
  | error error =>
    have impossible : ¬ (0 < expected ∧ latches.pending passage = 0) := by
      rintro ⟨positive, idle⟩
      simp [arm_eq_ok_iff.2 ⟨positive, idle, rfl⟩] at armed
    simp only [Refuses, serve, armed, Reply.refused.injEq, exists_eq_left']
    exact ⟨fun _ => by omega, fun _ => rfl⟩
  | ok next =>
    obtain ⟨positive, idle, -⟩ := arm_eq_ok_iff.1 armed
    simp only [Refuses, serve, armed, reduceCtorEq, false_and, exists_false, false_iff]
    omega

theorem refuses_arrive_iff {latches : Latches} {passage : Passage} :
    latches.Refuses (.arrive passage) ↔ ¬ 0 < latches.pending passage := by
  cases arrived : latches.arrive passage with
  | error error =>
    have idle : ¬ 0 < latches.pending passage := fun missing => by
      obtain ⟨released, left, granted⟩ := arrive_of_pending missing
      simp [granted] at arrived
    simp only [Refuses, serve, arrived, Reply.refused.injEq, exists_eq_left', idle,
      not_false_eq_true, iff_true]
    rfl
  | ok outcome =>
    simp [Refuses, serve, arrived, pending_of_arrive arrived]

theorem remembers_of_recalls {log : List Exchange} {latches : Latches}
    (recalls : ∀ passage, Recalls log passage (latches.pending passage)) :
    Remembers log latches where
  arm_refused passage expected := by rw [refuses_arm_iff, (recalls passage).live_iff]
  arrive_refused passage := by rw [refuses_arrive_iff, (recalls passage).live_iff]
  arrive_releases passage expected since opened := by
    obtain ⟨sum, positive⟩ := (recalls passage).counted _ _ opened
    obtain ⟨released, left, arrived⟩ := arrive_of_pending positive
    have releases := (pending_arrive arrived passage).1
    have last : latches.pending passage = 1 ↔ arrivals since passage + 1 = expected := by omega
    rw [last] at releases
    simp only [serve, arrived, Reply.arrived.injEq]
    exact Bool.eq_iff_iff.2 (releases.trans decide_eq_true_iff.symm)
  pending_live passage expected since opened := by
    obtain ⟨sum, positive⟩ := (recalls passage).counted _ _ opened
    exact ⟨_, rfl, by omega, positive⟩
  pending_idle passage idle := congrArg Reply.pending ((recalls passage).idle idle)
  abandoned passage := by
    refine ⟨_, rfl, ?_⟩
    rw [(recalls passage).live_iff, pending_pos_iff, Std.TreeMap.mem_iff_contains]
  armed := by
    refine ⟨latches.before.keys, Std.TreeMap.nodup_keys, fun passage => ?_, ?_⟩
    · rw [(recalls passage).live_iff, pending_pos_iff, Std.TreeMap.mem_keys]
    · exact Std.TreeMap.length_keys.symm
  unchanged request passage := by
    intro idle
    have kept : (latches.serve request).2.pending passage = latches.pending passage := by
      obtain ⟨error, refused, -⟩ | apart := idle
      · have same : (latches.serve request).2 = latches := serve_refused (Prod.ext refused rfl)
        rw [same]
      · exact pending_serve_of_ne apart
    refine ⟨?_, kept⟩
    rw [((recalls passage).concat (effect_serve latches request passage)).live_iff, kept,
      (recalls passage).live_iff]

/-- Whatever was asked, and with the passages in whatever order, the next replies are the ones that
the history calls for. -/
theorem remembers_history (requests : List Request) :
    Remembers (history serve {} requests) (after serve {} requests) :=
  remembers_of_recalls (recalls_history requests)

example :
    history serve {} [.arm ⟨"join", 0⟩ 2, .arrive ⟨"join", 0⟩, .arrive ⟨"join", 1⟩, .arrive ⟨"join", 0⟩,
        .arm ⟨"join", 0⟩ 1] =
      [⟨.arm ⟨"join", 0⟩ 2, .armed⟩, ⟨.arrive ⟨"join", 0⟩, .arrived false⟩,
        ⟨.arrive ⟨"join", 1⟩, .refused (.notArmed ⟨"join", 1⟩)⟩,
        ⟨.arrive ⟨"join", 0⟩, .arrived true⟩, ⟨.arm ⟨"join", 0⟩ 1, .armed⟩] := by
  decide +kernel

end Orchestration.Latches
