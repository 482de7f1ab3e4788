import Mathlib.Algebra.GroupWithZero.Nat
import Orchestration.Proofs.FanOut
import Orchestration.Rehearsal

/-! Tokens that run a machine. A token on a task goes on along the edge of the event it reports;
on a batch start it arms the join and splits; at a join it arrives, and only the arrival that
releases the join goes on. Counting what enters and leaves each state gives an invariant that
holds along every run, in whatever order the tokens move. -/

set_option autoImplicit false

namespace Orchestration

structure Move where
  state : String
  on : Event
  onto : List String
  deriving DecidableEq, Repr

/-- How far tokens have come: where they are, every state as often as it was entered, and the moves made,
earliest first. -/
structure Run where
  tokens : List String
  latches : Latches := {}
  entered : List String
  moves : List Move := []

def Stage.targetsOn (stage : Stage) (event : Event) : List String :=
  (stage.transitions.filter (·.on = event)).map Transition.target

/-- Where a token goes from a stage, and the latches it leaves behind. -/
def Machine.follow (machine : Machine) (epoch : Nat) (latches : Latches) (stage : Stage) (event : Event) :
    Except Rehearsal.Error (List String × Latches) :=
  match stage.role with
  | .task => .ok (stage.targetsOn event, latches)
  | .batchStart =>
    match machine.joinOf stage.id with
    | .error error => .error (.fanOut error)
    | .ok join =>
      match machine.arrivals stage.id with
      | .error error => .error (.fanOut error)
      | .ok expected =>
        match latches.arm ⟨join, epoch⟩ expected with
        | .error error => .error (.latch error)
        | .ok armed => .ok (stage.continueTargets, armed)
  | .batchJoin =>
    match latches.arrive ⟨stage.id, epoch⟩ with
    | .error error => .error (.latch error)
    | .ok (released, left) => .ok (if released then stage.continueTargets else [], left)

/-- What can follow a token that leaves a stage: all edges of its event are taken, but at a join it
may vanish. -/
inductive Stage.Hands (stage : Stage) : Event → List String → Prop where
  | onward : Hands stage .proceed stage.continueTargets
  | vanish (role : stage.role = .batchJoin) : Hands stage .proceed []
  | fail : Hands stage .error [Ending.failure.id]

namespace Run

def begin (starts : List String) : Run where
  tokens := starts
  entered := starts

def record (run : Run) (stage : Stage) (event : Event) (onto : List String) (latches : Latches) : Run where
  tokens := run.tokens.erase stage.id ++ onto
  latches := latches
  entered := run.entered ++ onto
  moves := run.moves ++ [⟨stage.id, event, onto⟩]

def advance (machine : Machine) (epoch : Nat) (run : Run) (stage : Stage) (event : Event) :
    Except Rehearsal.Error Run :=
  (machine.follow epoch run.latches stage event).map fun (onto, latches) =>
    run.record stage event onto latches

/-- A token is on the stage, and it may report the event there: only tasks can fail. -/
def CanMove (machine : Machine) (run : Run) (stage : Stage) (event : Event) : Prop :=
  stage.id ∈ run.tokens ∧ machine.stageAt? stage.id = some stage ∧ (stage.role ≠ .task → event = .proceed)

/-- The runs that begin with tokens on the given states, for every order of moves and every
choice of events. -/
inductive Reached (machine : Machine) (epoch : Nat) (starts : List String) : Run → Prop where
  | start : Reached machine epoch starts (begin starts)
  | move {run next : Run} {stage : Stage} {event : Event} (reached : Reached machine epoch starts run)
      (ready : CanMove machine run stage event) (moved : run.advance machine epoch stage event = .ok next) :
      Reached machine epoch starts next

def fires (run : Run) (id : String) : Nat :=
  run.moves.countP (·.state = id)

/-- How often a token has left a state on success and was followed by another one. -/
def passes (run : Run) (id : String) : Nat :=
  run.moves.countP fun move => move.state = id ∧ move.on = .proceed ∧ move.onto ≠ []

def errors (run : Run) : Nat :=
  run.moves.countP (·.on = .error)

end Run

namespace Machine

structure Meets (machine : Machine) (start join : Stage) : Prop where
  started : start ∈ machine.stages
  joined : join ∈ machine.stages
  opens : start.role = .batchStart
  closes : join.role = .batchJoin
  found : machine.joinOf start.id = .ok join.id

/-- How often a state is entered when every stage hands on its tokens once. -/
def inflow (machine : Machine) (starts : List String) (id : String) : Nat :=
  (starts ++ machine.stages.flatMap Stage.continueTargets).count id

structure Wired (machine : Machine) (starts : List String) : Prop where
  sound : machine.Sound
  forward : ∀ stage ∈ machine.stages, ∀ target ∈ stage.continueTargets,
    [stage.id, target].Sublist machine.ids
  begins : ∀ id ∈ starts, ∃ stage ∈ machine.stages, stage.id = id ∧ stage.role ≠ .batchJoin
  single : ∀ stage ∈ machine.stages, stage.role ≠ .batchJoin → machine.inflow starts stage.id = 1
  opened : ∀ start ∈ machine.stages, start.role = .batchStart → ∃ join, machine.Meets start join
  closed : ∀ join ∈ machine.stages, join.role = .batchJoin → ∃ start, machine.Meets start join
  unique : ∀ start other join, machine.Meets start join → machine.Meets other join → other = start
  ordered : ∀ start join, machine.Meets start join → [start.id, join.id].Sublist machine.ids
  gathers : ∀ start join, machine.Meets start join → machine.inflow starts join.id = start.arrivals
  feeds : ∀ start join, machine.Meets start join → ∀ stage ∈ machine.stages,
    join.id ∈ stage.continueTargets → stage = start ∨ stage.role = .task ∧ stage.id ∈ start.continueTargets
  succeeds : ∀ stage ∈ machine.stages, Ending.failure.id ∉ stage.continueTargets

end Machine

variable {machine : Machine} {epoch : Nat} {starts : List String} {run next : Run} {stage : Stage}
  {event : Event} {onto : List String} {latches after : Latches}

namespace Machine

theorem follow_cases (followed : machine.follow epoch latches stage event = .ok (onto, after)) :
    (stage.role = .task ∧ onto = stage.targetsOn event ∧ after = latches) ∨
    (stage.role = .batchStart ∧ onto = stage.continueTargets ∧ ∃ join expected,
      machine.joinOf stage.id = .ok join ∧ machine.arrivals stage.id = .ok expected ∧
      latches.arm ⟨join, epoch⟩ expected = .ok after) ∨
    (stage.role = .batchJoin ∧ ∃ released, latches.arrive ⟨stage.id, epoch⟩ = .ok (released, after) ∧
      onto = if released then stage.continueTargets else []) := by
  unfold follow at followed
  cases role : stage.role with
  | task =>
    rw [role] at followed
    cases followed
    exact .inl ⟨rfl, rfl, rfl⟩
  | batchStart =>
    simp only [role] at followed
    split at followed
    · cases followed
    next join found =>
      split at followed
      · cases followed
      next expected counted =>
        split at followed
        · cases followed
        next armed arms =>
          cases followed
          exact .inr (.inl ⟨rfl, rfl, join, expected, found, counted, arms⟩)
  | batchJoin =>
    simp only [role] at followed
    split at followed
    · cases followed
    next released left arrives =>
      cases followed
      exact .inr (.inr ⟨rfl, released, arrives, rfl⟩)

theorem Sound.eq_of_id (sound : machine.Sound) {first second : Stage} (member : first ∈ machine.stages)
    (other : second ∈ machine.stages) (same : first.id = second.id) : first = second := by
  have found := stageAt?_of_mem_stages sound.distinct member
  rw [same, stageAt?_of_mem_stages sound.distinct other] at found
  exact (Option.some.inj found).symm

theorem Sound.continueTargets_ne_nil (sound : machine.Sound) (member : stage ∈ machine.stages) :
    stage.continueTargets ≠ [] := by
  have leaves : stage.continues ≠ [] := by
    by_cases role : stage.role = .batchStart
    · rcases sound.fanOuts stage member role with ⟨edge, single, _⟩ | ⟨branches, _⟩
      · simp [single]
      · exact branches
    · obtain ⟨edge, single⟩ := sound.continues stage member role
      simp [single]
  simpa [Stage.continueTargets] using leaves

theorem Sound.targetsOn_error (sound : machine.Sound) (member : stage ∈ machine.stages) :
    stage.targetsOn .error = [Ending.failure.id] := by
  obtain ⟨edge, single, target⟩ := sound.failures stage member
  have failures : stage.targetsOn .error = stage.failures.map Transition.target := rfl
  rw [failures, single, List.map_singleton, target]

theorem Meets.join_eq (sound : machine.Sound) {start join other : Stage} (meets : machine.Meets start join)
    (also : machine.Meets start other) : other = join :=
  sound.eq_of_id also.joined meets.joined (Except.ok.inj (also.found.symm.trans meets.found))

theorem Sound.id_ne_of_role (sound : machine.Sound) {first second : Stage} (member : first ∈ machine.stages)
    (other : second ∈ machine.stages) (roles : first.role ≠ second.role) : first.id ≠ second.id :=
  fun same => roles (congrArg Stage.role (sound.eq_of_id member other same))

end Machine

namespace Run

theorem advance_eq_ok_iff :
    run.advance machine epoch stage event = .ok next ↔ ∃ onto after,
      machine.follow epoch run.latches stage event = .ok (onto, after) ∧
        next = run.record stage event onto after := by
  unfold advance
  cases followed : machine.follow epoch run.latches stage event with
  | error error => simp [Except.map]
  | ok result => simp [Except.map, Prod.ext_iff, eq_comm]

@[simp]
theorem tokens_record :
    (run.record stage event onto after).tokens = run.tokens.erase stage.id ++ onto := rfl

@[simp]
theorem latches_record : (run.record stage event onto after).latches = after := rfl

@[simp]
theorem entered_record : (run.record stage event onto after).entered = run.entered ++ onto := rfl

theorem fires_record (id : String) :
    (run.record stage event onto after).fires id = run.fires id + if stage.id = id then 1 else 0 := by
  simp [fires, record, List.countP_append, List.countP_singleton]

theorem passes_record (id : String) :
    (run.record stage event onto after).passes id =
      run.passes id + if stage.id = id ∧ event = .proceed ∧ onto ≠ [] then 1 else 0 := by
  simp [passes, record, List.countP_append, List.countP_singleton]

theorem errors_record :
    (run.record stage event onto after).errors = run.errors + if event = .error then 1 else 0 := by
  simp [errors, record, List.countP_append, List.countP_singleton]

theorem passes_le_fires (run : Run) (id : String) : run.passes id ≤ run.fires id := by
  apply List.countP_mono_left
  intro move _ passing
  simp only [decide_eq_true_eq] at passing ⊢
  exact passing.1

/-- Tokens are neither lost nor made up: what was entered is still there or was left again, and a
state is entered from the stages that lead to it. -/
structure Counted (machine : Machine) (starts : List String) (run : Run) : Prop where
  tokens : ∀ id, run.tokens.count id + run.fires id = run.entered.count id
  entered : ∀ id, run.entered.count id = starts.count id +
    (machine.stages.map fun stage => run.passes stage.id * stage.continueTargets.count id).sum +
    if id = Ending.failure.id then run.errors else 0
  moved : ∀ move ∈ run.moves, ∃ stage ∈ machine.stages, stage.id = move.state ∧
    stage.Hands move.on move.onto
  length : run.moves.length = (machine.stages.map fun stage => run.fires stage.id * 1).sum

structure LatchedAt (epoch : Nat) (run : Run) (start join : Stage) : Prop where
  pending : run.latches.pending ⟨join.id, epoch⟩ + run.fires join.id = run.fires start.id * start.arrivals
  released : run.passes join.id + (if run.latches.pending ⟨join.id, epoch⟩ = 0 then 0 else 1) =
    run.fires start.id

structure Latched (machine : Machine) (epoch : Nat) (run : Run) : Prop where
  joins : ∀ start join, machine.Meets start join → LatchedAt epoch run start join
  armed : ∀ passage, 0 < run.latches.pending passage →
    ∃ start join, machine.Meets start join ∧ passage = ⟨join.id, epoch⟩

theorem hands_of_follow (sound : machine.Sound) (member : stage ∈ machine.stages)
    (choice : stage.role ≠ .task → event = .proceed)
    (followed : machine.follow epoch latches stage event = .ok (onto, after)) : stage.Hands event onto := by
  rcases Machine.follow_cases followed with ⟨_, rfl, _⟩ | ⟨role, rfl, _⟩ | ⟨role, released, _, rfl⟩
  · cases event with
    | proceed => exact .onward
    | error =>
      rw [sound.targetsOn_error member]
      exact .fail
  · cases choice (by simp [role])
    exact .onward
  · cases choice (by simp [role])
    cases released with
    | true => exact .onward
    | false => exact .vanish role

theorem nodup_ids_stages (distinct : machine.ids.Nodup) : (machine.stages.map Stage.id).Nodup := by
  rw [Machine.ids, List.Nodup, List.pairwise_map] at distinct
  rw [List.Nodup, List.pairwise_map, Machine.stages, List.pairwise_filterMap]
  refine distinct.imp fun apart first found second other => ?_
  rename_i state state'
  cases state <;> cases found
  cases state' <;> cases other
  exact apart

/-- One more pass of one stage adds what that stage leads to. -/
theorem sum_passes_succ {stages : List Stage} (distinct : (stages.map Stage.id).Nodup)
    (member : stage ∈ stages) (passes weight : Stage → Nat) :
    (stages.map fun other => (passes other + if stage.id = other.id then 1 else 0) * weight other).sum =
      (stages.map fun other => passes other * weight other).sum + weight stage := by
  -- the stage is met once in the list, and the other summands stay as they are
  induction stages with
  | nil => cases member
  | cons first rest ih =>
    obtain ⟨fresh, distinct⟩ := List.nodup_cons.1 distinct
    simp only [List.map_cons, List.sum_cons]
    rcases List.mem_cons.1 member with rfl | later
    · have others : rest.map (fun other => (passes other + if stage.id = other.id then 1 else 0) * weight other) =
          rest.map fun other => passes other * weight other := by
        apply List.map_congr_left
        intro other inRest
        have apart : stage.id ≠ other.id := fun same => fresh (same ▸ List.mem_map_of_mem inRest)
        rw [if_neg apart, Nat.add_zero]
      rw [others, if_pos rfl, Nat.add_mul, Nat.one_mul]
      omega
    · have apart : stage.id ≠ first.id := fun same => fresh (same ▸ List.mem_map_of_mem later)
      rw [ih distinct later, if_neg apart, Nat.add_zero]
      omega

theorem count_erase_add {ids : List String} {id : String} (member : id ∈ ids) (other : String) :
    (ids.erase id).count other + (if id = other then 1 else 0) = ids.count other := by
  rw [List.count_erase]
  by_cases same : id = other
  · have positive := List.count_pos_iff.2 (same ▸ member)
    simp only [same, beq_self_eq_true, if_true]
    omega
  · simp [same]

theorem Counted.record (sound : machine.Sound) (counted : Counted machine starts run)
    (member : stage ∈ machine.stages) (onStage : stage.id ∈ run.tokens)
    (hands : stage.Hands event onto) :
    Counted machine starts (run.record stage event onto after) := by
  have leaves := sound.continueTargets_ne_nil member
  have distinct := nodup_ids_stages sound.distinct
  -- one move takes a token from its stage and adds what it hands on, on both sides of each equation
  constructor
  case tokens =>
    intro id
    have before := counted.tokens id
    have erased := count_erase_add onStage id
    rw [fires_record, tokens_record, entered_record, List.count_append, List.count_append]
    omega
  case entered =>
    intro id
    have before := counted.entered id
    simp only [passes_record, errors_record, entered_record, List.count_append, before]
    cases hands
    case onward =>
      have sum := sum_passes_succ distinct member (run.passes ·.id) (·.continueTargets.count id)
      simp only [leaves, ne_eq, not_false_eq_true, and_true, reduceCtorEq, if_false, Nat.add_zero]
      omega
    case vanish => simp
    case fail =>
      by_cases fails : id = Ending.failure.id
      · simp [fails, Nat.add_assoc]
      · simp [fails, Ne.symm fails]
  case moved =>
    intro move made
    rcases List.mem_append.1 made with earlier | last
    · exact counted.moved move earlier
    · rw [List.mem_singleton.1 last]
      exact ⟨stage, member, rfl, hands⟩
  case length =>
    have moves : (run.record stage event onto after).moves = run.moves ++ [⟨stage.id, event, onto⟩] := rfl
    simp only [moves, List.length_append, List.length_singleton, counted.length, fires_record]
    exact (sum_passes_succ distinct member (run.fires ·.id) fun _ => 1).symm

section

variable {start join : Stage}

theorem LatchedAt.record_of_ne (latched : LatchedAt epoch run start join) (notStart : stage.id ≠ start.id)
    (notJoin : stage.id ≠ join.id)
    (same : after.pending ⟨join.id, epoch⟩ = run.latches.pending ⟨join.id, epoch⟩) :
    LatchedAt epoch (run.record stage event onto after) start join := by
  constructor
  · rw [latches_record, fires_record, fires_record, if_neg notStart, if_neg notJoin, same]
    exact latched.pending
  · rw [latches_record, fires_record, passes_record, if_neg notStart, if_neg fun passing => notJoin passing.1, same]
    exact latched.released

theorem LatchedAt.record_arm (latched : LatchedAt epoch run start join) (notJoin : start.id ≠ join.id)
    (idle : run.latches.pending ⟨join.id, epoch⟩ = 0) (positive : 0 < start.arrivals)
    (armed : after.pending ⟨join.id, epoch⟩ = start.arrivals) :
    LatchedAt epoch (run.record start event onto after) start join := by
  have pending := latched.pending
  have released := latched.released
  rw [if_pos idle] at released
  constructor
  · rw [latches_record, fires_record, fires_record, armed, if_neg notJoin, if_pos rfl, Nat.add_mul]
    omega
  · rw [latches_record, fires_record, passes_record, armed, if_neg fun passing => notJoin passing.1, if_pos rfl,
      if_neg (Nat.ne_of_gt positive), ← released]

theorem LatchedAt.record_arrive (latched : LatchedAt epoch run start join) (notStart : join.id ≠ start.id)
    (leaves : join.continueTargets ≠ []) {released : Bool}
    (arrived : run.latches.arrive ⟨join.id, epoch⟩ = .ok (released, after)) :
    LatchedAt epoch (run.record join .proceed (if released then join.continueTargets else []) after)
      start join := by
  -- the latch was armed, so the passes lag one behind the start; a release makes up for it
  have pending := latched.pending
  have before := latched.released
  have waiting := Latches.pending_of_arrive arrived
  obtain ⟨releases, left⟩ := Latches.pending_arrive arrived ⟨join.id, epoch⟩
  rw [if_pos rfl] at left
  rw [if_neg (Nat.ne_of_gt waiting)] at before
  constructor
  · rw [latches_record, fires_record, fires_record, left, if_neg notStart, Nat.add_zero, if_pos rfl]
    omega
  · rw [latches_record, fires_record, passes_record, left, if_neg notStart]
    cases released with
    | true =>
      rw [releases.1 rfl]
      simpa [leaves] using before
    | false =>
      have more : run.latches.pending ⟨join.id, epoch⟩ ≠ 1 := fun last => by simpa using releases.2 last
      have some : run.latches.pending ⟨join.id, epoch⟩ - 1 ≠ 0 := by omega
      simpa [some] using before

end

theorem Latched.record_task (sound : machine.Sound) (latched : Latched machine epoch run)
    (member : stage ∈ machine.stages) (role : stage.role = .task) :
    Latched machine epoch (run.record stage event onto run.latches) := by
  constructor
  · intro start join meets
    apply (latched.joins start join meets).record_of_ne
    · exact sound.id_ne_of_role member meets.started (by simp [role, meets.opens])
    · exact sound.id_ne_of_role member meets.joined (by simp [role, meets.closes])
    · rfl
  · exact latched.armed

theorem Latched.record_start (wired : machine.Wired starts) (latched : Latched machine epoch run)
    (member : stage ∈ machine.stages) (role : stage.role = .batchStart) {id : String} {expected : Nat}
    (found : machine.joinOf stage.id = .ok id) (counted : machine.arrivals stage.id = .ok expected)
    (armed : run.latches.arm ⟨id, epoch⟩ expected = .ok after) :
    Latched machine epoch (run.record stage event onto after) := by
  obtain ⟨gate, meeting⟩ := wired.opened stage member role
  obtain ⟨positive, idle, rfl⟩ := Latches.arm_eq_ok_iff.1 armed
  cases Except.ok.inj (found.symm.trans meeting.found)
  cases Except.ok.inj (counted.symm.trans (Machine.arrivals_of_mem_stages wired.sound member role))
  constructor
  · intro start join meets
    have notJoin : stage.id ≠ join.id :=
      wired.sound.id_ne_of_role member meets.joined (by simp [role, meets.closes])
    by_cases same : start = stage
    · cases same
      cases meets.join_eq wired.sound meeting
      apply (latched.joins stage gate meets).record_arm notJoin idle positive
      rw [Latches.pending_insert, if_pos rfl, Nat.sub_add_cancel positive]
    · -- another start has a latch of its own
      have other : join.id ≠ gate.id := by
        intro gates
        cases wired.sound.eq_of_id meets.joined meeting.joined gates
        exact same (wired.unique stage start _ meeting meets)
      apply (latched.joins start join meets).record_of_ne
      · exact fun starts => same (wired.sound.eq_of_id meets.started member starts.symm)
      · exact notJoin
      · rw [Latches.pending_insert, if_neg fun passage => other (congrArg Passage.join passage)]
  · intro passage waits
    rw [latches_record, Latches.pending_insert] at waits
    split at waits
    next here => exact ⟨stage, gate, meeting, here⟩
    next => exact latched.armed passage waits

theorem Latched.record_join (wired : machine.Wired starts) (latched : Latched machine epoch run)
    (member : stage ∈ machine.stages) (role : stage.role = .batchJoin) {released : Bool}
    (arrived : run.latches.arrive ⟨stage.id, epoch⟩ = .ok (released, after)) :
    Latched machine epoch
      (run.record stage .proceed (if released then stage.continueTargets else []) after) := by
  constructor
  · intro start join meets
    have notStart : stage.id ≠ start.id :=
      wired.sound.id_ne_of_role member meets.started (by simp [role, meets.opens])
    by_cases same : join = stage
    · cases same
      exact (latched.joins start stage meets).record_arrive notStart
        (wired.sound.continueTargets_ne_nil member) arrived
    · have notJoin : stage.id ≠ join.id := fun joins => same (wired.sound.eq_of_id meets.joined member joins.symm)
      apply (latched.joins start join meets).record_of_ne notStart notJoin
      rw [(Latches.pending_arrive arrived ⟨join.id, epoch⟩).2,
        if_neg fun passage => notJoin (congrArg Passage.join passage).symm]
  · intro passage waits
    rw [latches_record, (Latches.pending_arrive arrived passage).2] at waits
    split at waits
    next here => exact latched.armed passage (here ▸ Latches.pending_of_arrive arrived)
    next => exact latched.armed passage waits

theorem CanMove.member (ready : run.CanMove machine stage event) : stage ∈ machine.stages :=
  (Machine.stageAt?_eq_some ready.2.1).1

theorem Latched.record (wired : machine.Wired starts) (latched : Latched machine epoch run)
    (ready : run.CanMove machine stage event)
    (followed : machine.follow epoch run.latches stage event = .ok (onto, after)) :
    Latched machine epoch (run.record stage event onto after) := by
  rcases Machine.follow_cases followed with ⟨role, _, rfl⟩ | ⟨role, _, _, _, found, counted, armed⟩ |
    ⟨role, released, arrived, rfl⟩
  · exact latched.record_task wired.sound ready.member role
  · exact latched.record_start wired ready.member role found counted armed
  · cases ready.2.2 (by simp [role])
    exact latched.record_join wired ready.member role arrived

theorem Reached.balanced (wired : machine.Wired starts) (reached : Reached machine epoch starts run) :
    Counted machine starts run ∧ Latched machine epoch run := by
  -- every move keeps both; the latches need the wiring, the count only sound edges
  induction reached with
  | start =>
    have fresh : ∀ passage, ({} : Latches).pending passage = 0 := fun passage => by simp [Latches.pending]
    refine ⟨⟨fun id => rfl, fun id => ?_, fun move made => ?_, ?_⟩,
      ⟨fun start join _ => ⟨?_, ?_⟩, fun passage waits => ?_⟩⟩
    · simp [begin, passes, errors]
    · cases made
    · simp [begin, fires]
    · simp [fresh, fires, begin]
    · simp [fresh, fires, passes, begin]
    · cases (fresh passage).symm.trans_gt waits
  | move _ ready moved ih =>
    obtain ⟨onto, after, followed, rfl⟩ := advance_eq_ok_iff.1 moved
    have hands := hands_of_follow wired.sound ready.member ready.2.2 followed
    exact ⟨ih.1.record wired.sound ready.member ready.1 hands, ih.2.record wired ready followed⟩

/-- What has been done so far was all that had been done at some time. -/
theorem Reached.past (reached : Reached machine epoch starts run) {earlier later : List Move}
    (split : run.moves = earlier ++ later) :
    ∃ past, Reached machine epoch starts past ∧ past.moves = earlier := by
  -- a prefix of the moves is either the whole run or a prefix of the run before its last move
  induction reached generalizing later with
  | start => exact ⟨begin starts, .start, (List.append_eq_nil_iff.1 split.symm).1.symm⟩
  | @move run next stage event reached ready moved ih =>
    rcases List.eq_nil_or_concat later with rfl | ⟨others, last, rfl⟩
    · exact ⟨next, .move reached ready moved, split.trans (List.append_nil _)⟩
    · obtain ⟨onto, after, followed, rfl⟩ := advance_eq_ok_iff.1 moved
      rw [List.concat_eq_append, ← List.append_assoc] at split
      exact ih (List.append_inj_left' split rfl)

def step? (machine : Machine) (epoch : Nat) (run : Run) (id : String) (event : Event) : Option Run :=
  match machine.stageAt? id with
  | some stage =>
    if id ∈ run.tokens ∧ (stage.role ≠ .task → event = .proceed) then
      (run.advance machine epoch stage event).toOption
    else none
  | none => none

/-- The run after one move for every entry of a schedule, if they can all be made. -/
def play (machine : Machine) (epoch : Nat) (run : Run) (schedule : List (String × Event)) : Option Run :=
  schedule.foldlM (fun run entry => run.step? machine epoch entry.1 entry.2) run

theorem step?_eq_some_iff {id : String} :
    run.step? machine epoch id event = some next ↔
      ∃ stage, stage.id = id ∧ CanMove machine run stage event ∧
        run.advance machine epoch stage event = .ok next := by
  have advanced (stage : Stage) : (run.advance machine epoch stage event).toOption = some next ↔
      run.advance machine epoch stage event = .ok next := by
    cases run.advance machine epoch stage event <;> simp [Except.toOption]
  unfold step?
  constructor
  · intro stepped
    split at stepped
    next stage stored =>
      split at stepped
      next possible =>
        obtain ⟨-, rfl⟩ := Machine.stageAt?_eq_some stored
        exact ⟨stage, rfl, ⟨possible.1, stored, possible.2⟩, (advanced stage).1 stepped⟩
      next => cases stepped
    next => cases stepped
  · rintro ⟨stage, rfl, ⟨present, stored, possible⟩, moved⟩
    rw [stored]
    exact (if_pos ⟨present, possible⟩).trans ((advanced stage).2 moved)

/-- The runs that are reached are those that some schedule plays. -/
theorem reached_iff_exists_play :
    Reached machine epoch starts run ↔ ∃ schedule, (begin starts).play machine epoch schedule = some run := by
  constructor
  · intro reached
    induction reached with
    | start => exact ⟨[], rfl⟩
    | @move run next stage event _ ready moved ih =>
      obtain ⟨schedule, played⟩ := ih
      refine ⟨schedule ++ [(stage.id, event)], ?_⟩
      rw [play, List.foldlM_append, ← play, played]
      simp [step?_eq_some_iff.2 ⟨stage, rfl, ready, moved⟩]
  · rintro ⟨schedule, played⟩
    induction schedule using List.reverseRecOn generalizing run with
    | nil =>
      cases played
      exact .start
    | append_singleton schedule entry ih =>
      rw [play, List.foldlM_append, ← play] at played
      obtain ⟨earlier, before, last⟩ := Option.bind_eq_some_iff.1 played
      obtain ⟨stage, -, ready, moved⟩ := step?_eq_some_iff.1 (by simpa using last)
      exact .move (ih before) ready moved

end Run

end Orchestration
