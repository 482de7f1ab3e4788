import Orchestration.Proofs.LatchHistory

/-! Latches passage by passage. What is replied at one passage does not depend on the requests for
others, so latches that are each armed and then arrived at in full serve their rounds in any mixture. -/

set_option autoImplicit false

namespace Orchestration.Latches

open Service (history exchange after)

variable {latches other : Latches} {passage : Passage}

theorem getElem?_before_congr (same : latches.pending passage = other.pending passage) :
    latches.before[passage]? = other.before[passage]? := by
  unfold pending at same
  cases first : latches.before[passage]? <;> cases second : other.before[passage]? <;>
    simp_all only [Nat.add_right_cancel_iff, Nat.add_eq_zero_iff, Nat.one_ne_zero, and_false, reduceCtorEq]

/-- Latches that lack as many arrivals at a passage reply the same there. -/
theorem serve_congr {request : Request}
    (same : latches.pending request.passage = other.pending request.passage) :
    exchange serve latches request = exchange serve other request ∧
      (latches.serve request).2.pending request.passage = (other.serve request).2.pending request.passage := by
  have stored := getElem?_before_congr same
  cases request with
  | arm passage expected =>
    have known : passage ∈ latches.before ↔ passage ∈ other.before := by
      rw [← pending_pos_iff, ← pending_pos_iff, show latches.pending passage = other.pending passage from same]
    cases expected with
    | zero => exact ⟨rfl, same⟩
    | succ before =>
      by_cases armed : passage ∈ latches.before
      · simpa [exchange, serve, arm, armed, known.1 armed] using same
      · simp [exchange, serve, arm, armed, mt known.2 armed, pending_insert, Request.passage]
  | arrive passage =>
    replace stored : latches.before[passage]? = other.before[passage]? := stored
    cases found : other.before[passage]? with
    | none => simpa [exchange, serve, arrive, stored, found] using same
    | some before =>
      cases before <;>
        simp [exchange, serve, arrive, stored, found, pending_insert, pending_erase, Request.passage]
  | abandon passage =>
    have existed : latches.before.contains passage = other.before.contains passage := by
      rw [Std.TreeMap.contains_eq_isSome_getElem?, Std.TreeMap.contains_eq_isSome_getElem?]
      exact congrArg Option.isSome stored
    simp [exchange, serve, abandon, existed, pending_erase, Request.passage]
  | pending passage =>
    replace same : latches.pending passage = other.pending passage := same
    simp [exchange, serve, same, Request.passage]

/-- Of what is exchanged with latches, that part which concerns one passage is what would be exchanged
with them if nothing else were asked. -/
theorem filter_history_of_pending (requests : List Request)
    (same : latches.pending passage = other.pending passage) :
    (history serve latches requests).filter (·.request.passage = passage) =
        history serve other (requests.filter (·.passage = passage)) ∧
      (after serve latches requests).pending passage =
        (after serve other (requests.filter (·.passage = passage))).pending passage := by
  induction requests generalizing latches other with
  | nil => exact ⟨rfl, same⟩
  | cons request rest ih =>
    rw [Service.history_cons, Service.after_cons]
    by_cases here : request.passage = passage
    · subst here
      obtain ⟨reply, left⟩ := serve_congr same
      obtain ⟨later, final⟩ := ih left
      rw [List.filter_cons_of_pos (by simp [exchange]), List.filter_cons_of_pos (by simp), Service.history_cons,
        Service.after_cons, reply, later]
      exact ⟨rfl, final⟩
    · rw [List.filter_cons_of_neg (by simp [exchange, here]), List.filter_cons_of_neg (by simp [here])]
      exact ih ((pending_serve_of_ne here).trans same)

def round (passage : Passage) (expected : Nat) : List Request :=
  .arm passage expected :: List.replicate expected (.arrive passage)

/-- A round without a refusal, in which the last arrival alone releases the latch. -/
def roundServed (passage : Passage) (expected : Nat) : List Exchange :=
  ⟨.arm passage expected, .armed⟩ ::
    (List.replicate (expected - 1) ⟨.arrive passage, .arrived false⟩ ++ [⟨.arrive passage, .arrived true⟩])

theorem history_arrivals {missing : Nat} (waiting : latches.pending passage = missing + 1) :
    history serve latches (List.replicate (missing + 1) (.arrive passage)) =
        List.replicate missing ⟨.arrive passage, .arrived false⟩ ++ [⟨.arrive passage, .arrived true⟩] ∧
      (after serve latches (List.replicate (missing + 1) (.arrive passage))).pending passage = 0 := by
  induction missing generalizing latches with
  | zero =>
    obtain ⟨released, next, arrived⟩ := arrive_of_pending (by omega : 0 < latches.pending passage)
    obtain ⟨releases, left⟩ := pending_arrive arrived passage
    cases releases.2 waiting
    simp [history, Service.run, after, serve, arrived, left, waiting]
  | succ missing ih =>
    obtain ⟨released, next, arrived⟩ := arrive_of_pending (by omega : 0 < latches.pending passage)
    obtain ⟨releases, left⟩ := pending_arrive arrived passage
    rw [if_pos rfl, waiting] at left
    have several : released = false := by
      cases released with
      | false => rfl
      | true => exact absurd (releases.1 rfl) (by omega)
    obtain ⟨rest, final⟩ := ih left
    rw [List.replicate_succ, Service.history_cons, Service.after_cons]
    simp only [exchange, serve, arrived, several]
    exact ⟨by rw [rest]; rfl, final⟩

theorem history_round {expected : Nat} (idle : latches.pending passage = 0) (positive : 0 < expected) :
    history serve latches (round passage expected) = roundServed passage expected ∧
      (after serve latches (round passage expected)).pending passage = 0 := by
  obtain ⟨before, rfl⟩ := Nat.exists_eq_succ_of_ne_zero (Nat.pos_iff_ne_zero.1 positive)
  have armed := arm_eq_ok_iff.2 ⟨positive, idle, rfl⟩
  have waiting : (Latches.mk (latches.before.insert passage (before + 1 - 1))).pending passage = before + 1 := by
    rw [pending_insert, if_pos rfl, Nat.add_sub_cancel]
  obtain ⟨arrivals, final⟩ := history_arrivals waiting
  rw [round, Service.history_cons, Service.after_cons]
  simp only [exchange, serve, armed]
  exact ⟨by rw [arrivals]; rfl, final⟩

theorem armed_eq_zero_of_pending (idle : ∀ passage, latches.pending passage = 0) : latches.armed = 0 := by
  have empty : latches.before.isEmpty = true := by
    apply Std.TreeMap.isEmpty_iff_forall_not_mem.2
    intro passage waits
    exact absurd (pending_pos_iff.2 waits) (by simp [idle passage])
  rw [Std.TreeMap.isEmpty_eq_size_eq_zero] at empty
  exact eq_of_beq empty

section

variable {requests : List Request}

theorem filter_history (requests : List Request) (passage : Passage) :
    (history serve {} requests).filter (·.request.passage = passage) =
        history serve {} (requests.filter (·.passage = passage)) ∧
      (after serve {} requests).pending passage =
        (after serve {} (requests.filter (·.passage = passage))).pending passage :=
  filter_history_of_pending requests rfl

theorem filter_history_round {expected : Nat} (positive : 0 < expected)
    (asked : requests.filter (·.passage = passage) = round passage expected) :
    (history serve {} requests).filter (·.request.passage = passage) = roundServed passage expected := by
  rw [(filter_history requests passage).1, asked, (history_round rfl positive).1]

/-- At every passage either nothing is asked or one round is. -/
def Rounds (requests : List Request) : Prop :=
  ∀ passage, requests.filter (·.passage = passage) = [] ∨
    ∃ expected, 0 < expected ∧ requests.filter (·.passage = passage) = round passage expected

theorem Rounds.not_refused (rounds : Rounds requests) {exchange : Exchange}
    (member : exchange ∈ history serve {} requests) (error : Error) : exchange.reply ≠ .refused error := by
  have here : exchange ∈ (history serve {} requests).filter (·.request.passage = exchange.request.passage) := by
    simpa using member
  generalize exchange.request.passage = passage at here
  rcases rounds passage with silent | ⟨expected, positive, asked⟩
  · rw [(filter_history _ _).1, silent] at here
    cases here
  · rw [filter_history_round positive asked] at here
    simp only [roundServed, List.mem_cons, List.mem_append, List.mem_replicate, List.not_mem_nil, or_false] at here
    rcases here with same | ⟨_, same⟩ | same <;> simp [same]

theorem Rounds.armed_eq_zero (rounds : Rounds requests) : (after serve {} requests).armed = 0 := by
  apply armed_eq_zero_of_pending
  intro passage
  rw [(filter_history requests passage).2]
  rcases rounds passage with silent | ⟨expected, positive, asked⟩
  · rw [silent]
    rfl
  · rw [asked]
    exact (history_round rfl positive).2

end

end Orchestration.Latches
