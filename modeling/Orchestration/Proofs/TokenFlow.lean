import Mathlib.Algebra.Order.BigOperators.Group.List
import Mathlib.Algebra.Order.Group.Nat
import Orchestration.Proofs.TokenRun

/-! What tokens can rely on in a machine that is wired for them. The balance of every run, read off
stage by stage from the front of the machine, bounds how often each state is entered. Hence no latch
is armed twice or missed, a join lets a token through only when all have arrived, and a run that is
neither stopped nor failed does everything once. -/

set_option autoImplicit false

namespace Orchestration

variable {machine : Machine} {epoch : Nat} {starts : List String} {run : Run} {stage : Stage} {event : Event}

namespace Machine

theorem idxOf_lt_of_sublist {ids : List String} {first second : String} (distinct : ids.Nodup)
    (pair : [first, second].Sublist ids) : ids.idxOf first < ids.idxOf second := by
  induction ids with
  | nil => cases pair
  | cons id rest ih =>
    obtain ⟨fresh, distinct⟩ := List.nodup_cons.1 distinct
    cases pair with
    | cons _ later =>
      have apart : id ≠ first := fun same => fresh (same ▸ later.subset List.mem_cons_self)
      have apart' : id ≠ second := fun same =>
        fresh (same ▸ later.subset (List.mem_cons_of_mem _ List.mem_cons_self))
      rw [List.idxOf_cons_ne _ apart, List.idxOf_cons_ne _ apart']
      exact Nat.succ_lt_succ (ih distinct later)
    | cons_cons _ later =>
      have apart : first ≠ second := fun same => fresh (same ▸ List.singleton_sublist.1 later)
      rw [List.idxOf_cons_self, List.idxOf_cons_ne _ apart]
      exact Nat.succ_pos _

/-- What every stage inherits from the stages before it holds of all stages. -/
theorem Wired.induct (wired : machine.Wired starts) {motive : Stage → Prop}
    (inherits : ∀ stage ∈ machine.stages, (∀ earlier ∈ machine.stages,
      [earlier.id, stage.id].Sublist machine.ids → motive earlier) → motive stage) :
    ∀ stage ∈ machine.stages, motive stage := by
  -- edges lead forward, so the induction is on the place of a stage in the list of states
  intro stage
  induction place : machine.ids.idxOf stage.id using Nat.strong_induction_on generalizing stage with
  | _ place ih =>
    intro member
    apply inherits stage member
    intro earlier stored pair
    have before := idxOf_lt_of_sublist wired.sound.distinct pair
    exact ih _ (place ▸ before) earlier rfl stored

theorem inflow_eq (machine : Machine) (starts : List String) (id : String) :
    machine.inflow starts id =
      starts.count id + (machine.stages.map fun stage => stage.continueTargets.count id).sum := by
  rw [inflow, List.count_append, List.count_flatMap]
  rfl

theorem sum_mul_le {stages : List Stage} {passes weight : Stage → Nat}
    (once : ∀ stage ∈ stages, 0 < weight stage → passes stage ≤ 1) :
    (stages.map fun stage => passes stage * weight stage).sum ≤ (stages.map weight).sum := by
  induction stages with
  | nil => exact Nat.le_refl 0
  | cons first rest ih =>
    have tail := ih fun stage member => once stage (List.mem_cons_of_mem _ member)
    have head : passes first * weight first ≤ weight first := by
      rcases Nat.eq_zero_or_pos (weight first) with none | some
      · simp [none]
      · simpa using Nat.mul_le_mul_right (weight first) (once first List.mem_cons_self some)
    simp only [List.map_cons, List.sum_cons]
    omega

theorem sum_mul_add_le {stages : List Stage} (passes weight : Stage → Nat)
    (once : ∀ stage ∈ stages, 0 < weight stage → passes stage ≤ 1) (member : stage ∈ stages)
    (none : passes stage = 0) :
    (stages.map fun stage => passes stage * weight stage).sum + weight stage ≤ (stages.map weight).sum := by
  -- bring the stage to the front, where it contributes nothing
  have order := List.perm_cons_erase member
  rw [(order.map fun stage => passes stage * weight stage).sum_nat, (order.map weight).sum_nat]
  have rest : ((stages.erase stage).map fun stage => passes stage * weight stage).sum ≤
      ((stages.erase stage).map weight).sum :=
    sum_mul_le fun other later => once other (List.mem_of_mem_erase later)
  simp only [List.map_cons, List.sum_cons, none]
  omega

end Machine

namespace Run

theorem exists_proceed_of_passes {id : String} (passed : run.passes id ≠ 0) :
    ∃ move ∈ run.moves, move.state = id ∧ move.on = .proceed := by
  obtain ⟨move, made, passing⟩ := List.countP_pos_iff.1 (Nat.pos_of_ne_zero passed)
  simp only [decide_eq_true_eq] at passing
  exact ⟨move, made, passing.1, passing.2.1⟩

theorem passes_ne_zero_of_mem {move : Move} (made : move ∈ run.moves) (proceeds : move.on = .proceed)
    (leads : move.onto ≠ []) : run.passes move.state ≠ 0 := by
  refine Nat.ne_of_gt (List.countP_pos_iff.2 ⟨move, made, ?_⟩)
  simp [proceeds, leads]

theorem passes_lt_fires_of_mem {move : Move} (made : move ∈ run.moves) (failed : move.on = .error) :
    run.passes move.state < run.fires move.state := by
  obtain ⟨earlier, later, moves⟩ := List.append_of_mem made
  have weaker : ∀ moves : List Move, moves.countP (fun other => other.state = move.state ∧
      other.on = .proceed ∧ other.onto ≠ []) ≤ moves.countP (·.state = move.state) := fun moves =>
    List.countP_mono_left fun other _ passing => by
      simp only [decide_eq_true_eq] at passing ⊢
      exact passing.1
  have before := weaker earlier
  have after := weaker later
  simp only [passes, fires, moves, List.countP_append, List.countP_cons, failed]
  simp only [reduceCtorEq, false_and, and_false, decide_false, Bool.false_eq_true, if_false, decide_true,
    if_true]
  omega

theorem Counted.exists_passed (counted : Counted machine starts run) {id : String} (later : id ∉ starts)
    (succeeds : id ≠ Ending.failure.id) (entered : id ∈ run.entered) :
    ∃ stage ∈ machine.stages, id ∈ stage.continueTargets ∧ run.passes stage.id ≠ 0 := by
  have some := List.count_pos_iff.2 entered
  rw [counted.entered, List.count_eq_zero_of_not_mem later, if_neg succeeds, Nat.zero_add, Nat.add_zero] at some
  obtain ⟨share, member, positive⟩ := List.sum_pos_iff_exists_pos_nat.1 some
  obtain ⟨stage, stored, rfl⟩ := List.mem_map.1 member
  exact ⟨stage, stored, List.count_pos_iff.1 (Nat.pos_of_mul_pos_left positive),
    Nat.ne_of_gt (Nat.pos_of_mul_pos_right positive)⟩

theorem Counted.entered_le (counted : Counted machine starts run) {id : String}
    (succeeds : id ≠ Ending.failure.id)
    (once : ∀ other ∈ machine.stages, id ∈ other.continueTargets → run.passes other.id ≤ 1) :
    run.entered.count id ≤ machine.inflow starts id := by
  have sum := Machine.sum_mul_le fun other member some => once other member (List.count_pos_iff.1 some)
  rw [counted.entered id, machine.inflow_eq, if_neg succeeds]
  exact Nat.add_le_add_left sum _

section

variable (wired : machine.Wired starts) (counted : Counted machine starts run)
  (latched : Latched machine epoch run)
include wired counted latched

/-- No stage hands its tokens on twice, and only a join can be left twice. -/
theorem passes_le_one_and_fires_le_one : ∀ stage ∈ machine.stages,
    run.passes stage.id ≤ 1 ∧ (stage.role ≠ .batchJoin → run.fires stage.id ≤ 1) := by
  refine wired.induct (motive := fun stage =>
    run.passes stage.id ≤ 1 ∧ (stage.role ≠ .batchJoin → run.fires stage.id ≤ 1)) ?_
  intro stage member earlier
  -- a join passes at most as often as its start fires; other stages are entered at most once
  by_cases role : stage.role = .batchJoin
  · obtain ⟨start, meets⟩ := wired.closed stage member role
    have released := (latched.joins start stage meets).released
    have fired := (earlier start meets.started (wired.ordered start stage meets)).2 (by simp [meets.opens])
    exact ⟨by omega, fun other => absurd role other⟩
  · have entered := counted.entered_le (wired.sound.stage_id_ne member .failure)
      fun other stored leaves => (earlier other stored (wired.forward other stored _ leaves)).1
    rw [wired.single stage member role] at entered
    have tokens := counted.tokens stage.id
    have passes := run.passes_le_fires stage.id
    exact ⟨by omega, fun _ => by omega⟩

theorem passes_le_one (member : stage ∈ machine.stages) : run.passes stage.id ≤ 1 :=
  (passes_le_one_and_fires_le_one wired counted latched stage member).1

theorem fires_le_one (member : stage ∈ machine.stages) (role : stage.role ≠ .batchJoin) :
    run.fires stage.id ≤ 1 :=
  (passes_le_one_and_fires_le_one wired counted latched stage member).2 role

theorem entered_le_inflow {id : String} (succeeds : id ≠ Ending.failure.id) :
    run.entered.count id ≤ machine.inflow starts id :=
  counted.entered_le succeeds fun _ member _ => passes_le_one wired counted latched member

theorem entered_add_le (member : stage ∈ machine.stages) (none : run.passes stage.id = 0) {id : String}
    (succeeds : id ≠ Ending.failure.id) :
    run.entered.count id + stage.continueTargets.count id ≤ machine.inflow starts id := by
  have sum := Machine.sum_mul_add_le (run.passes ·.id) (·.continueTargets.count id)
    (fun other stored _ => passes_le_one wired counted latched stored) member none
  rw [counted.entered id, machine.inflow_eq, if_neg succeeds]
  omega

theorem not_entered_of_start {start : Stage} (member : start ∈ machine.stages)
    (waits : run.fires start.id = 0) (stored : stage ∈ machine.stages) (role : stage.role ≠ .batchJoin)
    (branch : stage.id ∈ start.continueTargets) : run.entered.count stage.id = 0 := by
  have passes := run.passes_le_fires start.id
  have room := entered_add_le wired counted latched member (Nat.le_zero.1 (waits ▸ passes))
    (wired.sound.stage_id_ne stored .failure)
  have some := List.count_pos_iff.2 branch
  rw [wired.single stage stored role] at room
  omega

theorem pending_pos_of_mem_tokens {start join : Stage} (meets : machine.Meets start join)
    (arrives : join.id ∈ run.tokens) : 0 < run.latches.pending ⟨join.id, epoch⟩ := by
  have positive := List.count_pos_iff.2 arrives
  have tokens := counted.tokens join.id
  have pending := (latched.joins start join meets).pending
  have entered := entered_le_inflow wired counted latched (wired.sound.stage_id_ne meets.joined .failure)
  rw [wired.gathers start join meets] at entered
  rcases Nat.le_one_iff_eq_zero_or_eq_one.1
    (fires_le_one wired counted latched meets.started (by simp [meets.opens])) with waits | fired
  · -- before the start has been left, nothing can have reached its join
    have fresh : starts.count join.id = 0 := List.count_eq_zero.2 fun begins => by
      obtain ⟨stage, member, same, role⟩ := wired.begins join.id begins
      cases wired.sound.eq_of_id member meets.joined same
      exact role meets.closes
    have silent : ∀ stage ∈ machine.stages, run.passes stage.id * stage.continueTargets.count join.id = 0 := by
      intro stage member
      by_cases leads : join.id ∈ stage.continueTargets
      · have passes := run.passes_le_fires stage.id
        rcases wired.feeds start join meets stage member leads with rfl | ⟨task, branch⟩
        · simp [Nat.le_zero.1 (waits ▸ passes)]
        · have never := not_entered_of_start wired counted latched meets.started waits member
            (by simp [task]) branch
          have balance := counted.tokens stage.id
          have none : run.passes stage.id = 0 := by omega
          simp [none]
      · rw [List.count_eq_zero_of_not_mem leads, Nat.mul_zero]
    have sum := counted.entered join.id
    have none : (machine.stages.map fun stage =>
        run.passes stage.id * stage.continueTargets.count join.id).sum = 0 :=
      List.sum_eq_zero_iff_forall_eq_nat.2 (by simpa using silent)
    rw [if_neg (wired.sound.stage_id_ne meets.joined .failure), none, fresh] at sum
    omega
  · rw [fired, Nat.one_mul] at pending
    omega

theorem exists_advance (ready : run.CanMove machine stage event) :
    ∃ next, run.advance machine epoch stage event = .ok next := by
  suffices follows : ∃ result, machine.follow epoch run.latches stage event = .ok result by
    obtain ⟨⟨onto, after⟩, followed⟩ := follows
    exact ⟨_, advance_eq_ok_iff.2 ⟨onto, after, followed, rfl⟩⟩
  have member := ready.member
  -- only latches can refuse: a start needs one that is idle, a join one that is armed
  cases role : stage.role with
  | task => simp [Machine.follow, role]
  | batchStart =>
    obtain ⟨join, meets⟩ := wired.opened stage member role
    have arrivals := Machine.arrivals_of_mem_stages wired.sound member role
    have positive := Machine.arrivals_pos arrivals
    have onStage := List.count_pos_iff.2 ready.1
    have tokens := counted.tokens stage.id
    have entered := entered_le_inflow wired counted latched (wired.sound.stage_id_ne member .failure)
    rw [wired.single stage member (by simp [role])] at entered
    have idle : run.latches.pending ⟨join.id, epoch⟩ = 0 := by
      have pending := (latched.joins stage join meets).pending
      have waits : run.fires stage.id = 0 := by omega
      rw [waits, Nat.zero_mul] at pending
      omega
    have armed := Latches.arm_eq_ok_iff.2 ⟨positive, idle, rfl⟩
    simp [Machine.follow, role, meets.found, arrivals, armed]
  | batchJoin =>
    obtain ⟨start, meets⟩ := wired.closed stage member role
    obtain ⟨released, left, arrived⟩ :=
      Latches.arrive_of_pending (pending_pos_of_mem_tokens wired counted latched meets ready.1)
    simp [Machine.follow, role, arrived]

theorem passes_of_join_passes {start join : Stage} (meets : machine.Meets start join)
    (passed : run.passes join.id ≠ 0) (member : stage ∈ machine.stages)
    (leads : join.id ∈ stage.continueTargets) : run.passes stage.id = 1 := by
  have succeeds := wired.sound.stage_id_ne meets.joined .failure
  have once := passes_le_one wired counted latched member
  have fired := fires_le_one wired counted latched meets.started (by simp [meets.opens])
  have released := (latched.joins start join meets).released
  have pending := (latched.joins start join meets).pending
  have tokens := counted.tokens join.id
  have some := List.count_pos_iff.2 leads
  -- the start has fired once; if the latch were still armed, the join could not have passed
  have idle : run.latches.pending ⟨join.id, epoch⟩ = 0 := by
    by_contra waits
    rw [if_neg waits] at released
    omega
  have full : run.fires join.id = machine.inflow starts join.id := by
    rw [if_pos idle] at released
    have opened : run.fires start.id = 1 := by omega
    rw [wired.gathers start join meets, ← Nat.one_mul start.arrivals, ← opened, ← pending, idle, Nat.zero_add]
  -- a feeder that has not passed would leave the join entered too rarely
  by_contra missing
  have room := entered_add_le wired counted latched member (by omega) succeeds
  omega

/-- A failed branch keeps its join closed and the latch armed. -/
theorem pending_pos_of_failed {start join : Stage} (meets : machine.Meets start join)
    (member : stage ∈ machine.stages) (role : stage.role = .task) (branch : stage.id ∈ start.continueTargets)
    (leads : join.id ∈ stage.continueTargets) {move : Move} (made : move ∈ run.moves)
    (there : move.state = stage.id) (failed : move.on = .error) :
    run.passes join.id = 0 ∧ 0 < run.latches.pending ⟨join.id, epoch⟩ := by
  have fewer := passes_lt_fires_of_mem made failed
  have fired := fires_le_one wired counted latched member (by simp [role])
  have tokens := counted.tokens stage.id
  rw [there] at fewer
  have closed : run.passes join.id = 0 := by
    by_contra passed
    have whole := passes_of_join_passes wired counted latched meets passed member leads
    omega
  -- the branch was entered, so its start has been left
  have opened : run.fires start.id ≠ 0 := by
    intro waits
    have never := not_entered_of_start wired counted latched meets.started waits member (by simp [role]) branch
    omega
  have released := (latched.joins start join meets).released
  refine ⟨closed, Nat.pos_of_ne_zero fun idle => opened ?_⟩
  rw [← released, closed, if_pos idle]

theorem length_moves_le :
    run.moves.length ≤ (machine.stages.map fun stage => machine.inflow starts stage.id).sum := by
  rw [counted.length]
  apply List.sum_le_sum
  intro stage member
  have tokens := counted.tokens stage.id
  have entered := entered_le_inflow wired counted latched (wired.sound.stage_id_ne member .failure)
  omega

end

theorem Counted.passes_eq_fires (sound : machine.Sound) (counted : Counted machine starts run)
    (flawless : ∀ move ∈ run.moves, move.on = .proceed) (member : stage ∈ machine.stages)
    (role : stage.role ≠ .batchJoin) : run.passes stage.id = run.fires stage.id := by
  apply List.countP_congr
  intro move made
  simp only [decide_eq_true_eq]
  refine ⟨fun passing => passing.1, fun same => ⟨same, flawless move made, ?_⟩⟩
  obtain ⟨origin, stored, named, hands⟩ := counted.moved move made
  cases sound.eq_of_id stored member (named.trans same)
  rw [flawless move made] at hands
  generalize move.onto = onto at hands
  cases hands with
  | onward => exact sound.continueTargets_ne_nil member
  | vanish join => exact absurd join role

theorem errors_eq_zero (flawless : ∀ move ∈ run.moves, move.on = .proceed) : run.errors = 0 :=
  List.countP_eq_zero.2 fun move made => by simp [flawless move made]

theorem Counted.entered_eq (counted : Counted machine starts run) {id : String}
    (silent : id = Ending.failure.id → run.errors = 0)
    (passed : ∀ stage ∈ machine.stages, id ∈ stage.continueTargets → run.passes stage.id = 1) :
    run.entered.count id = machine.inflow starts id := by
  have full : (machine.stages.map fun stage => run.passes stage.id * stage.continueTargets.count id) =
      machine.stages.map fun stage => stage.continueTargets.count id := by
    apply List.map_congr_left
    intro stage member
    by_cases leads : id ∈ stage.continueTargets
    · rw [passed stage member leads, Nat.one_mul]
    · rw [List.count_eq_zero_of_not_mem leads, Nat.mul_zero]
  rw [counted.entered, machine.inflow_eq, full]
  split
  next fails => rw [silent fails, Nat.add_zero]
  next => exact Nat.add_zero _

section

variable (wired : machine.Wired starts) (counted : Counted machine starts run)
  (latched : Latched machine epoch run) (flawless : ∀ move ∈ run.moves, move.on = .proceed)
  (quiet : ∀ stage ∈ machine.stages, stage.id ∉ run.tokens)
include wired counted latched flawless quiet

/-- Where nothing has failed and nothing can move any more, every stage has done its part. -/
theorem passes_eq_one : ∀ stage ∈ machine.stages, run.passes stage.id = 1 := by
  apply wired.induct (motive := fun stage => run.passes stage.id = 1)
  intro stage member earlier
  have entered : run.entered.count stage.id = machine.inflow starts stage.id :=
    counted.entered_eq (fun fails => absurd fails (wired.sound.stage_id_ne member .failure))
      fun other stored leaves => earlier other stored (wired.forward other stored _ leaves)
  have tokens := counted.tokens stage.id
  rw [List.count_eq_zero_of_not_mem (quiet stage member), Nat.zero_add, entered] at tokens
  -- all stages before have passed, so every edge into this one was taken
  by_cases role : stage.role = .batchJoin
  · obtain ⟨start, meets⟩ := wired.closed stage member role
    have opened := earlier start meets.started (wired.ordered start stage meets)
    rw [counted.passes_eq_fires wired.sound flawless meets.started (by simp [meets.opens])] at opened
    have pending := (latched.joins start stage meets).pending
    have released := (latched.joins start stage meets).released
    rw [opened, tokens, wired.gathers start stage meets, Nat.one_mul] at pending
    rw [if_pos (by omega), opened] at released
    exact released
  · rw [counted.passes_eq_fires wired.sound flawless member role, tokens, wired.single stage member role]

theorem entered_eq_inflow (id : String) : run.entered.count id = machine.inflow starts id :=
  counted.entered_eq (fun _ => errors_eq_zero flawless) fun stage member _ =>
    passes_eq_one wired counted latched flawless quiet stage member

theorem armed_eq_zero : run.latches.armed = 0 := by
  have empty : run.latches.before.isEmpty = true := by
    apply Std.TreeMap.isEmpty_iff_forall_not_mem.2
    intro passage waits
    have pending := Latches.pending_pos_iff.2 waits
    obtain ⟨start, join, meets, rfl⟩ := latched.armed passage pending
    have released := (latched.joins start join meets).released
    have fired := fires_le_one wired counted latched meets.started (by simp [meets.opens])
    rw [passes_eq_one wired counted latched flawless quiet join meets.joined, if_neg (by omega)] at released
    omega
  rw [Std.TreeMap.isEmpty_eq_size_eq_zero] at empty
  exact eq_of_beq empty

theorem tokens_eq_replicate :
    run.tokens = List.replicate (machine.inflow starts Ending.success.id) Ending.success.id := by
  have there : ∀ id ∈ run.tokens, id = Ending.success.id := by
    intro id member
    have tokens := counted.tokens id
    have entered := entered_eq_inflow wired counted latched flawless quiet id
    have some := List.count_pos_iff.2 member
    have flows : id ∈ starts ++ machine.stages.flatMap Stage.continueTargets :=
      List.count_pos_iff.1 (show 0 < machine.inflow starts id by omega)
    -- a stage would still be able to move, and nothing leads to failure
    have stays : ∀ stage ∈ machine.stages, stage.id ≠ id := fun stage stored same =>
      quiet stage stored (same ▸ member)
    rcases List.mem_append.1 flows with begins | continues
    · obtain ⟨stage, stored, same, _⟩ := wired.begins id begins
      exact absurd same (stays stage stored)
    · obtain ⟨stage, stored, leaves⟩ := List.mem_flatMap.1 continues
      have known := (wired.forward stage stored id leaves).subset (List.mem_cons_of_mem _ List.mem_cons_self)
      obtain ⟨state, listed, rfl⟩ := List.mem_map.1 known
      cases state with
      | stage other => exact absurd rfl (stays other (Machine.mem_stages.2 listed))
      | final name =>
        obtain ⟨ending, rfl⟩ := wired.sound.finals name listed
        cases ending with
        | success => rfl
        | failure => exact absurd leaves (wired.succeeds stage stored)
  have unmoved : run.fires Ending.success.id = 0 := by
    apply List.countP_eq_zero.2
    intro move made
    obtain ⟨stage, stored, named, _⟩ := counted.moved move made
    simp [← named, wired.sound.stage_id_ne stored .success]
  have tokens := counted.tokens Ending.success.id
  rw [unmoved, entered_eq_inflow wired counted latched flawless quiet, Nat.add_zero] at tokens
  rw [← tokens, List.count_eq_length.2 fun id member => (there id member).symm]
  exact List.eq_replicate_of_mem there

end

end Run

end Orchestration
