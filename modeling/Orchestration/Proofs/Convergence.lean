import Orchestration.Proofs.Execution
import Orchestration.Proofs.LatchRounds

/-! Where batches meet. In a compiled machine the start of a batch knows its join and the number of edges
that lead there, so a runtime that arms joins as the starts say is never refused, in whatever order it
makes its requests. -/

set_option autoImplicit false

namespace Orchestration

namespace Machine

variable {machine : Machine} {epoch : Nat} {start join : String} {expected : Nat}
  {calls : List (String × Latches.Request)}

/-- What is asked of the latches for one batch start. -/
def roundOf (machine : Machine) (epoch : Nat) (start : String) : List Latches.Request :=
  match machine.joinOf start, machine.arrivals start with
  | .ok join, .ok expected => Latches.round ⟨join, epoch⟩ expected
  | _, _ => []

/-- Requests, each with the batch start for which it is made: the rounds of all batch starts, mixed in
any way. -/
structure Mixes (machine : Machine) (epoch : Nat) (calls : List (String × Latches.Request)) : Prop where
  own : ∀ call ∈ calls, call.1 ∈ machine.batchStarts
  rounds : ∀ start ∈ machine.batchStarts,
    (calls.filter (·.1 = start)).map Prod.snd = machine.roundOf epoch start

/-- No request is refused, every join is released by the last of its arrivals and by no other, and no
latch stays armed. -/
structure Drains (machine : Machine) (epoch : Nat) (requests : List Latches.Request) : Prop where
  served : ∀ exchange ∈ Service.history Latches.serve {} requests, ∀ error, exchange.reply ≠ .refused error
  released : ∀ start join expected, machine.joinOf start = .ok join → machine.arrivals start = .ok expected →
    (Service.history Latches.serve {} requests).filter (·.request.passage = ⟨join, epoch⟩) =
      Latches.roundServed ⟨join, epoch⟩ expected
  idle : (Service.after Latches.serve {} requests).armed = 0

theorem mem_batchStarts :
    start ∈ machine.batchStarts ↔ ∃ stage ∈ machine.stages, stage.role = .batchStart ∧ stage.id = start := by
  simp [batchStarts, and_assoc]

theorem batchStart_of_joinOf (found : machine.joinOf start = .ok join) :
    ∃ stage, machine.batchStart start = .ok stage := by
  unfold joinOf at found
  cases opened : machine.batchStart start with
  | error error => simp [opened] at found
  | ok stage => exact ⟨stage, rfl⟩

theorem mem_batchStarts_of_joinOf (found : machine.joinOf start = .ok join) :
    start ∈ machine.batchStarts := by
  obtain ⟨stage, opened⟩ := batchStart_of_joinOf found
  obtain ⟨stored, role⟩ := batchStart_eq_ok_iff.1 opened
  obtain ⟨member, named⟩ := stageAt?_eq_some stored
  exact mem_batchStarts.2 ⟨stage, member, role, named⟩

theorem exists_arrivals_of_joinOf (found : machine.joinOf start = .ok join) :
    ∃ expected, machine.arrivals start = .ok expected := by
  obtain ⟨stage, opened⟩ := batchStart_of_joinOf found
  exact ⟨stage.arrivals, by rw [arrivals, opened]; rfl⟩

theorem roundOf_eq (found : machine.joinOf start = .ok join) (counted : machine.arrivals start = .ok expected) :
    machine.roundOf epoch start = Latches.round ⟨join, epoch⟩ expected := by
  simp only [roundOf, found, counted]

theorem passage_of_mem_roundOf {request : Latches.Request} (asked : request ∈ machine.roundOf epoch start) :
    ∃ join, machine.joinOf start = .ok join ∧ request.passage = ⟨join, epoch⟩ := by
  cases found : machine.joinOf start with
  | error error => simp [roundOf, found] at asked
  | ok join =>
    obtain ⟨expected, counted⟩ := exists_arrivals_of_joinOf found
    rw [roundOf_eq found counted, Latches.round, List.mem_cons, List.mem_replicate] at asked
    refine ⟨join, rfl, ?_⟩
    rcases asked with rfl | ⟨_, rfl⟩ <;> rfl

section

variable (mixes : machine.Mixes epoch calls)
  (unique : ∀ start other join, machine.joinOf start = .ok join → machine.joinOf other = .ok join → other = start)
include mixes

theorem Mixes.passage {call : String × Latches.Request} (member : call ∈ calls) :
    ∃ join, machine.joinOf call.1 = .ok join ∧ call.2.passage = ⟨join, epoch⟩ := by
  apply passage_of_mem_roundOf
  rw [← mixes.rounds call.1 (mixes.own call member)]
  exact List.mem_map_of_mem (List.mem_filter.2 ⟨member, by simp⟩)

include unique

/-- Requests at a join are those made for the one start that leads there. -/
theorem Mixes.filter_passage (found : machine.joinOf start = .ok join) :
    (calls.map Prod.snd).filter (·.passage = ⟨join, epoch⟩) = machine.roundOf epoch start := by
  rw [← mixes.rounds start (mem_batchStarts_of_joinOf found), List.filter_map]
  congr 1
  apply List.filter_congr
  intro call member
  obtain ⟨target, leads, there⟩ := mixes.passage member
  simp only [Function.comp_apply, there, decide_eq_decide, Passage.mk.injEq, and_true]
  constructor
  · rintro rfl
    exact unique start call.1 target found leads
  · intro same
    rw [same, found] at leads
    exact (Except.ok.inj leads).symm

theorem Mixes.rounds_map : Latches.Rounds (calls.map Prod.snd) := by
  intro passage
  by_cases asked : ∃ call ∈ calls, call.2.passage = passage
  · obtain ⟨call, member, rfl⟩ := asked
    obtain ⟨join, found, there⟩ := mixes.passage member
    obtain ⟨expected, counted⟩ := exists_arrivals_of_joinOf found
    refine .inr ⟨expected, arrivals_pos counted, ?_⟩
    rw [there, mixes.filter_passage unique found, roundOf_eq found counted]
  · refine .inl (List.filter_eq_nil_iff.2 fun request made => ?_)
    obtain ⟨call, member, rfl⟩ := List.mem_map.1 made
    simpa using fun there => asked ⟨call, member, there⟩

theorem Mixes.drains : machine.Drains epoch (calls.map Prod.snd) := by
  have rounds := mixes.rounds_map unique
  constructor
  case served => exact fun exchange member error => rounds.not_refused member error
  case released =>
    intro start join expected found counted
    apply Latches.filter_history_round (arrivals_pos counted)
    rw [mixes.filter_passage unique found, roundOf_eq found counted]
  case idle => exact rounds.armed_eq_zero

end

/-- Errors lead to failure only, so all other states are targets of edges taken on success. -/
theorem Sound.count_targets (sound : machine.Sound) {id : String} (other : id ≠ Ending.failure.id) :
    machine.targets.count id = (machine.stages.flatMap Stage.continueTargets).count id := by
  rw [Machine.targets, List.count_flatMap, List.count_flatMap]
  congr 1
  apply List.map_congr_left
  intro stage member
  obtain ⟨edge, single, target⟩ := sound.failures stage member
  have failures : (stage.failures.map Transition.target).count id = 0 := by
    rw [single, List.map_singleton, target]
    exact List.count_eq_zero.2 fun member => other (List.mem_singleton.1 member)
  have parts : (stage.continues ++ stage.failures).Perm stage.transitions := by
    have sorted := List.filter_append_perm (fun edge : Transition => edge.on = .proceed) stage.transitions
    have errors : (stage.transitions.filter fun edge => !decide (edge.on = .proceed)) = stage.failures := by
      apply List.filter_congr
      intro edge _
      cases edge.on <;> rfl
    rwa [errors] at sorted
  have counts := (parts.map Transition.target).count_eq id
  rw [List.map_append, List.count_append, failures, Nat.add_zero] at counts
  exact counts.symm

end Machine

namespace Partition

variable {settings : Settings} {graph : Graph} {partition : Partition} {machine : Machine}

structure Converges (partition : Partition) (machine : Machine) : Prop where
  expects : ∀ region ∈ partition.regions, ∀ batch number, (batch, number) ∈ region.numbered →
    machine.arrivals (StateId.batchStart region.id number).text =
      .ok (if batch = [] then 1 else batch.length)
  joins : ∀ region ∈ partition.regions, ∀ batch number, (batch, number) ∈ region.numbered →
    machine.joinOf (StateId.batchStart region.id number).text = .ok (StateId.batchJoin region.id number).text
  paired : ∀ join ∈ machine.stages, join.role = .batchJoin →
    ∃! start, start ∈ machine.stages ∧ start.role = .batchStart ∧ machine.joinOf start.id = .ok join.id
  edges : ∀ start join, machine.joinOf start = .ok join →
    machine.arrivals start = .ok (machine.targets.count join)

namespace Consistent

variable (consistent : Consistent settings graph partition)
include consistent

theorem exists_meets {start join : String} (found : (partition.machine graph).joinOf start = .ok join) :
    ∃ opening closing, (partition.machine graph).Meets opening closing ∧ opening.id = start ∧
      closing.id = join := by
  obtain ⟨opening, member, role, rfl⟩ := Machine.mem_batchStarts.1 (Machine.mem_batchStarts_of_joinOf found)
  obtain ⟨closing, meets⟩ := consistent.wired.opened opening member role
  exact ⟨opening, closing, meets, rfl, Except.ok.inj (meets.found.symm.trans found)⟩

theorem joinOf_unique (start other join : String)
    (found : (partition.machine graph).joinOf start = .ok join)
    (also : (partition.machine graph).joinOf other = .ok join) : other = start := by
  obtain ⟨opening, closing, meets, rfl, rfl⟩ := consistent.exists_meets found
  obtain ⟨second, closed, meeting, rfl, same⟩ := consistent.exists_meets also
  cases consistent.sound.eq_of_id meeting.joined meets.joined same
  rw [consistent.start_unique meets meeting]

theorem count_targets_join {start join : Stage} (meets : (partition.machine graph).Meets start join) :
    (partition.machine graph).targets.count join.id = start.arrivals := by
  have entered : partition.starts.count join.id = 0 := by
    refine List.count_eq_zero.2 fun begins => ?_
    obtain ⟨stage, stored, same, role⟩ := consistent.wired.begins join.id begins
    cases consistent.sound.eq_of_id stored meets.joined same
    exact role meets.closes
  have gathered := consistent.wired.gathers start join meets
  rw [Machine.inflow, List.count_append, entered, Nat.zero_add] at gathered
  rw [consistent.sound.count_targets (consistent.sound.stage_id_ne meets.joined .failure), gathered]

theorem converges : partition.Converges (partition.machine graph) := by
  have sound := consistent.sound
  constructor
  case expects =>
    intro region member batch number place
    have start : region.start batch number ∈ (partition.machine graph).stages :=
      mem_stages_machine.2 (.start member place)
    have counted := Machine.arrivals_of_mem_stages sound start rfl
    rw [Region.arrivals_start] at counted
    cases batch with
    | nil => exact counted
    | cons key rest =>
      have several : max 1 (key :: rest).length = (key :: rest).length := by simp
      rw [several] at counted
      rw [if_neg (List.cons_ne_nil key rest)]
      exact counted
  case joins => exact fun region member batch number place => (consistent.meets member place).found
  case paired =>
    intro join member role
    obtain ⟨start, meets⟩ := consistent.wired.closed join member role
    refine ⟨start, ⟨meets.started, meets.opens, meets.found⟩, fun other found => ?_⟩
    obtain ⟨stored, opens, found⟩ := found
    exact consistent.start_unique meets ⟨stored, member, opens, role, found⟩
  case edges =>
    intro start join found
    obtain ⟨opening, closing, meets, rfl, rfl⟩ := consistent.exists_meets found
    rw [consistent.count_targets_join meets]
    exact Machine.arrivals_of_mem_stages sound meets.started meets.opens

end Consistent

/-- The starts, the joins and the edges of a compiled machine agree, and latches that are armed and
arrived at as the starts say serve every request and are idle in the end. -/
theorem converges_and_drains (reviewing : settings.reviewPartition = true)
    (compiled : partition.compile settings graph = .ok machine) :
    partition.Converges machine ∧ ∀ epoch calls, machine.Mixes epoch calls →
      machine.Drains epoch (calls.map Prod.snd) := by
  obtain ⟨consistent, rfl⟩ := consistent_of_compile reviewing compiled
  exact ⟨consistent.converges, fun epoch calls mixes => mixes.drains consistent.joinOf_unique⟩

/-- Both batches of the diamond at once: the second is armed while the first still waits. -/
def overlapping : List (String × Latches.Request) :=
  let first := (StateId.batchStart "body" 1).text
  let second := (StateId.batchStart "body" 2).text
  let gate : Passage := ⟨(StateId.batchJoin "body" 1).text, 7⟩
  let exit : Passage := ⟨(StateId.batchJoin "body" 2).text, 7⟩
  [(first, .arm gate 2), (first, .arrive gate), (second, .arm exit 1), (second, .arrive exit),
    (first, .arrive gate)]

theorem drains_diamond :
    ({} : Settings).reviewPartition = true ∧ ∃ machine, diamond.compile {} diamondGraph = .ok machine ∧
      diamond.Converges machine ∧ machine.Mixes 7 overlapping ∧
        machine.Drains 7 (overlapping.map Prod.snd) := by
  have compiled := consistent_diamond.compile
  have mixes : (diamond.machine diamondGraph).Mixes 7 overlapping :=
    ⟨by decide +kernel, by decide +kernel⟩
  obtain ⟨converges, drains⟩ := converges_and_drains rfl compiled
  exact ⟨rfl, _, compiled, converges, mixes, drains 7 overlapping mixes⟩

end Partition

end Orchestration
