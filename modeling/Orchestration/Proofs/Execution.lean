import Orchestration.Proofs.Compilation
import Orchestration.Proofs.Crossings
import Orchestration.Proofs.TokenFlow

/-! Running compiled machines. One token starts on every chain with steps and on every region with
batches, and the machine is wired so that whatever the tokens do, joins and latches serve them. -/

set_option autoImplicit false

namespace Orchestration

theorem Region.arrivals_start (region : Region) (batch : List String) (number : Nat) :
    (region.start batch number).arrivals = max 1 batch.length := by
  rw [Stage.arrivals, continues_start]
  cases batch with
  | nil => rfl
  | cons key rest =>
    have marked : ((key :: rest).map fun key => branchTo (StateId.task key).text).countP Transition.parallel =
        (key :: rest).length := by
      rw [List.countP_map, List.countP_eq_length]
      exact fun _ _ => rfl
    rw [if_neg (List.cons_ne_nil key rest), marked]

namespace Partition

variable {settings : Settings} {graph : Graph} {partition : Partition}

def starts (partition : Partition) : List String :=
  partition.entries.map StateId.text

theorem inflow_machine (graph : Graph) (partition : Partition) (name : StateId) :
    (partition.machine graph).inflow partition.starts name.text = partition.crossings.count name := by
  rw [Machine.inflow, starts, (perm_crossings graph partition).count_eq,
    List.count_map_of_injective _ _ StateId.text_injective]

theorem not_mem_continueTargets_failure {stage : Stage} (member : stage ∈ (partition.machine graph).stages) :
    Ending.failure.id ∉ stage.continueTargets := by
  intro leaves
  have crossed : (StateId.final .failure).text ∈ stage.continueTargets := leaves
  cases (mem_stages_machine.1 member).leads crossed

namespace Consistent

variable (consistent : Consistent settings graph partition)
include consistent

theorem sound : (partition.machine graph).Sound :=
  sound_machine consistent.selfKeyed consistent.nodup_names

/-- A batch is known by the id of its region and its number. -/
theorem place_unique {region other : Region} {batch nodes : List String} {number : Nat}
    (member : region ∈ partition.regions) (place : (batch, number) ∈ region.numbered)
    (inRegions : other ∈ partition.regions) (placed : (nodes, number) ∈ other.numbered)
    (same : other.id = region.id) : other = region ∧ nodes = batch := by
  cases List.inj_on_of_nodup_map consistent.regions inRegions member same
  have found := (mem_numbered.1 place).2
  rw [(mem_numbered.1 placed).2] at found
  exact ⟨rfl, Option.some.inj found⟩

theorem count_names {name : StateId} (member : name ∈ partition.stageNames) : partition.names.count name = 1 :=
  List.count_eq_one_of_mem consistent.nodup_names (List.mem_append_left _ member)

theorem inflow_eq_one {stage : Stage} (member : stage ∈ (partition.machine graph).stages)
    (role : stage.role ≠ .batchJoin) : (partition.machine graph).inflow partition.starts stage.id = 1 := by
  have once : ∀ name ∈ partition.stageNames, (∀ ending, name ≠ .final ending) →
      (∀ region number, name ≠ .batchJoin region number) →
      (partition.machine graph).inflow partition.starts name.text = 1 := by
    intro name named stays other
    rw [inflow_machine, count_crossings_of_ne stays other, consistent.count_names named]
  cases mem_stages_machine.1 member with
  | @step chain before after key inChains path =>
    have named : StateId.task key ∈ chain.path.map StateId.task :=
      List.mem_map_of_mem (by rw [path]; exact List.mem_append_cons_self)
    rw [consistent.selfKeyed.id_stage]
    exact once _ ((sublist_stageNames_of_chain inChains).subset named) (fun _ same => by cases same)
      (fun _ _ same => by cases same)
  | @start region batch number inRegions place =>
    exact once (.batchStart region.id number)
      ((sublist_stageNames_of_batch inRegions place).subset List.mem_cons_self) (fun _ same => by cases same)
      (fun _ _ same => by cases same)
  | @branch region batch number key inRegions place inBatch =>
    have named : StateId.task key ∈ region.batchNames batch number :=
      List.mem_append_left _ (List.mem_cons_of_mem _ (List.mem_map_of_mem inBatch))
    rw [consistent.selfKeyed.id_stage]
    exact once _ ((sublist_stageNames_of_batch inRegions place).subset named) (fun _ same => by cases same)
      (fun _ _ same => by cases same)
  | join => exact absurd rfl role

section

variable {region : Region} {batch : List String} {number : Nat}
  (member : region ∈ partition.regions) (place : (batch, number) ∈ region.numbered)
include member place

theorem meets : (partition.machine graph).Meets (region.start batch number) (region.join number) := by
  have start : region.start batch number ∈ (partition.machine graph).stages :=
    mem_stages_machine.2 (.start member place)
  have join : region.join number ∈ (partition.machine graph).stages :=
    mem_stages_machine.2 (.join member place)
  have distinct := consistent.sound.distinct
  refine ⟨start, join, rfl, rfl, Machine.joinOf_of_mem_stages consistent.sound start rfl ?_⟩
  cases batch with
  | nil => exact Machine.joinAfter?_eq_some distinct rfl join join rfl (.inl rfl)
  | cons key rest =>
    have branch : (graph.nodeAt key).stage (region.join number).id ∈ (partition.machine graph).stages :=
      mem_stages_machine.2 (.branch member place List.mem_cons_self)
    refine Machine.joinAfter?_eq_some distinct ?_ branch join rfl (.inr ⟨rfl, rfl⟩)
    rw [Region.continueTargets_start, consistent.selfKeyed.id_stage]
    rfl

theorem inflow_join :
    (partition.machine graph).inflow partition.starts (region.join number).id = max 1 batch.length := by
  have named : StateId.batchJoin region.id number ∈ partition.stageNames :=
    (sublist_stageNames_of_batch member place).subset (List.mem_append_right _ (List.mem_singleton_self _))
  have sizes : ∀ other ∈ partition.regions, ∀ nodes, (nodes, number) ∈ other.numbered → other.id = region.id →
      max 1 nodes.length = max 1 batch.length := by
    intro other inRegions nodes placed same
    rw [(consistent.place_unique member place inRegions placed same).2]
  rw [Region.join, inflow_machine, count_crossings_join sizes, consistent.count_names named, Nat.mul_one]

end

theorem of_meets {start join : Stage} (meets : (partition.machine graph).Meets start join) :
    ∃ region ∈ partition.regions, ∃ batch number, (batch, number) ∈ region.numbered ∧
      start = region.start batch number ∧ join = region.join number := by
  rcases stage_machine meets.started with ⟨_, region, member, batch, number, place, rfl⟩ | ⟨role, _⟩
  · exact ⟨region, member, batch, number, place, rfl,
      (consistent.meets member place).join_eq consistent.sound meets⟩
  · exact absurd meets.opens role

theorem feeds {region : Region} {batch : List String} {number : Nat} (member : region ∈ partition.regions)
    (place : (batch, number) ∈ region.numbered) {stage : Stage}
    (stored : stage ∈ (partition.machine graph).stages)
    (leads : (StateId.batchJoin region.id number).text ∈ stage.continueTargets) :
    stage = region.start batch number ∨
      stage.role = .task ∧ stage.id ∈ (region.start batch number).continueTargets := by
  -- a place with the same join is the same place
  have here : ∀ other ∈ partition.regions, ∀ nodes count, (nodes, count) ∈ other.numbered →
      StateId.batchJoin region.id number = .batchJoin other.id count →
        other = region ∧ nodes = batch ∧ count = number := by
    intro other inRegions nodes count placed same
    obtain ⟨ids, rfl⟩ := StateId.batchJoin.inj same
    obtain ⟨rfl, rfl⟩ := consistent.place_unique member place inRegions placed ids.symm
    exact ⟨rfl, rfl, rfl⟩
  generalize named : StateId.batchJoin region.id number = name at leads
  cases (mem_stages_machine.1 stored).leads leads with
  | task => cases named
  | success => cases named
  | next => cases named
  | direct inRegions placed =>
    obtain ⟨rfl, rfl, rfl⟩ := here _ inRegions _ _ placed named
    exact .inl rfl
  | gather inRegions placed inBatch =>
    obtain ⟨rfl, rfl, rfl⟩ := here _ inRegions _ _ placed named
    refine .inr ⟨rfl, ?_⟩
    rw [Region.continueTargets_start, if_neg (List.ne_nil_of_mem inBatch), consistent.selfKeyed.id_stage]
    exact List.mem_map_of_mem (List.mem_map_of_mem inBatch)

theorem mem_stages_of_mem_starts {id : String} (begins : id ∈ partition.starts) :
    ∃ stage ∈ (partition.machine graph).stages, stage.id = id ∧ stage.role ≠ .batchJoin := by
  obtain ⟨name, entry, rfl⟩ := List.mem_map.1 begins
  -- a chain starts with its first task, a region with the start of its first batch
  rcases List.mem_append.1 entry with first | first
  · obtain ⟨chain, member, inEntry⟩ := List.mem_flatMap.1 first
    cases path : chain.path with
    | nil => simp [Chain.entry, path] at inEntry
    | cons key rest =>
      simp only [Chain.entry, path, List.take_succ_cons, List.take_zero, List.map_singleton,
        List.mem_singleton] at inEntry
      have step : partition.Emits graph ((graph.nodeAt key).stage (following rest)) :=
        .step member (path.trans (List.nil_append _).symm)
      exact ⟨_, mem_stages_machine.2 step, inEntry ▸ consistent.selfKeyed.id_stage key _,
        fun role => by cases role⟩
  · obtain ⟨region, member, inEntry⟩ := List.mem_flatMap.1 first
    unfold Region.entry at inEntry
    split at inEntry
    · cases inEntry
    next some =>
      obtain ⟨batch, rest, batches⟩ := List.exists_cons_of_ne_nil some
      have place : (batch, 1) ∈ region.numbered := mem_numbered.2 ⟨Nat.le_refl 1, by simp [batches]⟩
      rw [List.mem_singleton.1 inEntry]
      exact ⟨_, mem_stages_machine.2 (.start member place), rfl, fun role => by cases role⟩

theorem start_unique {start other join : Stage} (meets : (partition.machine graph).Meets start join)
    (also : (partition.machine graph).Meets other join) : other = start := by
  -- a join's id tells region and number, and with them the batch
  obtain ⟨region, member, batch, number, place, rfl, rfl⟩ := consistent.of_meets meets
  obtain ⟨region', member', batch', number', place', rfl, same⟩ := consistent.of_meets also
  obtain ⟨ids, rfl⟩ := StateId.batchJoin.inj (StateId.text_injective (congrArg Stage.id same))
  obtain ⟨rfl, rfl⟩ := consistent.place_unique member place member' place' ids.symm
  rfl

theorem start_before_join {start join : Stage} (meets : (partition.machine graph).Meets start join) :
    [start.id, join.id].Sublist (partition.machine graph).ids := by
  obtain ⟨region, member, batch, number, place, rfl, rfl⟩ := consistent.of_meets meets
  have pair : [StateId.batchStart region.id number, .batchJoin region.id number].Sublist
      (region.batchNames batch number) := by
    simp [Region.batchNames]
  have inNames := sublist_names_of_stageNames (pair.trans (sublist_stageNames_of_batch member place))
  rw [consistent.selfKeyed.ids_machine]
  exact inNames.map StateId.text

theorem wired : (partition.machine graph).Wired partition.starts := by
  constructor
  case sound => exact consistent.sound
  case forward => exact fun stage member target leaves => forward_machine consistent.selfKeyed member leaves
  case begins => exact fun id begins => consistent.mem_stages_of_mem_starts begins
  case single => exact fun stage member role => consistent.inflow_eq_one member role
  case opened =>
    intro stage member role
    rcases stage_machine member with ⟨_, region, inRegions, batch, number, place, rfl⟩ | ⟨other, _⟩
    · exact ⟨_, consistent.meets inRegions place⟩
    · exact absurd role other
  case closed =>
    intro stage member role
    cases mem_stages_machine.1 member with
    | step => cases role
    | start => cases role
    | branch => cases role
    | join inRegions place => exact ⟨_, consistent.meets inRegions place⟩
  case unique => exact fun start other join meets also => consistent.start_unique meets also
  case ordered => exact fun start join meets => consistent.start_before_join meets
  case gathers =>
    intro start join meets
    obtain ⟨region, member, batch, number, place, rfl, rfl⟩ := consistent.of_meets meets
    rw [consistent.inflow_join member place, Region.arrivals_start]
  case feeds =>
    intro start join meets stage stored leads
    obtain ⟨region, member, batch, number, place, rfl, rfl⟩ := consistent.of_meets meets
    exact consistent.feeds member place stored leads
  case succeeds => exact fun stage member => not_mem_continueTargets_failure member

end Consistent

/-- Only the join of a batch leads to the start of the next one. -/
theorem id_of_leads_to_next {id : String} {number : Nat} {stage : Stage}
    (stored : stage ∈ (partition.machine graph).stages)
    (leads : (StateId.batchStart id (number + 1)).text ∈ stage.continueTargets) :
    stage.id = (StateId.batchJoin id number).text := by
  cases (mem_stages_machine.1 stored).leads leads with
  | next => rfl

theorem next_not_mem_starts {id : String} {number : Nat} (positive : 1 ≤ number) :
    (StateId.batchStart id (number + 1)).text ∉ partition.starts := by
  intro begins
  obtain ⟨name, entry, same⟩ := List.mem_map.1 begins
  cases StateId.text_injective same
  rcases List.mem_append.1 entry with first | first
  · obtain ⟨chain, _, inEntry⟩ := List.mem_flatMap.1 first
    obtain ⟨_, _, other⟩ := List.mem_map.1 inEntry
    cases other
  · obtain ⟨region, _, inEntry⟩ := List.mem_flatMap.1 first
    unfold Region.entry at inEntry
    split at inEntry
    · cases inEntry
    · cases List.mem_singleton.1 inEntry
      omega

theorem state_of_enters {run : Run} (counted : Run.Counted (partition.machine graph) partition.starts run)
    {id : String} {number : Nat} {move : Move} (made : move ∈ run.moves)
    (enters : (StateId.batchStart id (number + 1)).text ∈ move.onto ∨
      move.state = (StateId.batchJoin id number).text ∧ Ending.success.id ∈ move.onto) :
    move.state = (StateId.batchJoin id number).text ∧ move.on = .proceed ∧ move.onto ≠ [] := by
  obtain ⟨stage, stored, named, hands⟩ := counted.moved move made
  obtain ⟨state, event, onto⟩ := move
  -- failing leads to failure alone, and a vanished token to nothing
  cases hands with
  | onward =>
    rcases enters with next | ⟨there, success⟩
    · exact ⟨named.symm.trans (id_of_leads_to_next stored next), rfl, List.ne_nil_of_mem next⟩
    · exact ⟨there, rfl, List.ne_nil_of_mem success⟩
  | vanish => simp at enters
  | fail =>
    rcases enters with next | ⟨_, success⟩
    · have same : (StateId.batchStart id (number + 1)).text = (StateId.final .failure).text :=
        List.mem_singleton.1 next
      cases StateId.text_injective same
    · exact absurd (List.mem_singleton.1 success) (by decide)

/-- What holds of a run at any time, if it started where the partition says: no request is refused and no
task entered twice, a batch is over before what follows it begins, a failed task keeps its join armed, and a
run that rests without a failure has done every task. -/
structure Orderly (partition : Partition) (machine : Machine) (epoch : Nat) (run : Run) : Prop where
  served : ∀ stage event, run.CanMove machine stage event →
    ∃ next, run.advance machine epoch stage event = .ok next
  once : ∀ stage ∈ machine.stages, stage.role = .task → run.entered.count stage.id ≤ 1
  ordered : ∀ region ∈ partition.regions, ∀ batch number, (batch, number) ∈ region.numbered →
    (StateId.batchStart region.id (number + 1)).text ∉ partition.starts ∧
    ∀ earlier move later, run.moves = earlier ++ move :: later →
      (StateId.batchStart region.id (number + 1)).text ∈ move.onto ∨
        move.state = (StateId.batchJoin region.id number).text ∧ Ending.success.id ∈ move.onto →
      ∀ key ∈ batch, ∃ done ∈ earlier, done.state = (StateId.task key).text ∧ done.on = .proceed
  stopped : ∀ region ∈ partition.regions, ∀ batch number, (batch, number) ∈ region.numbered →
    ∀ key ∈ batch, ∀ move ∈ run.moves, move.state = (StateId.task key).text → move.on = .error →
      0 < run.latches.pending ⟨(StateId.batchJoin region.id number).text, epoch⟩ ∧
        (StateId.batchStart region.id (number + 1)).text ∉ run.entered
  complete : (∀ move ∈ run.moves, move.on = .proceed) → (∀ stage event, ¬ run.CanMove machine stage event) →
    (∀ stage ∈ machine.stages, stage.role = .task → run.entered.count stage.id = 1) ∧
      run.latches.armed = 0 ∧ run.tokens = List.replicate partition.entries.length Ending.success.id

section

variable (consistent : Consistent settings graph partition) {epoch : Nat} {run : Run}
  (reached : run.Reached (partition.machine graph) epoch partition.starts)
  {region : Region} {batch : List String} {number : Nat} (member : region ∈ partition.regions)
  (place : (batch, number) ∈ region.numbered)
include consistent reached member place

theorem exists_proceed_of_join (passed : run.passes (StateId.batchJoin region.id number).text ≠ 0)
    {key : String} (inBatch : key ∈ batch) :
    ∃ done ∈ run.moves, done.state = (StateId.task key).text ∧ done.on = .proceed := by
  obtain ⟨counted, latched⟩ := reached.balanced consistent.wired
  have branch : (graph.nodeAt key).stage (region.join number).id ∈ (partition.machine graph).stages :=
    mem_stages_machine.2 (.branch member place inBatch)
  have whole := Run.passes_of_join_passes consistent.wired counted latched (consistent.meets member place)
    passed branch (List.mem_singleton_self _)
  rw [consistent.selfKeyed.id_stage] at whole
  exact Run.exists_proceed_of_passes (by omega)

theorem ordered_of_reached {earlier later : List Move} {move : Move}
    (moves : run.moves = earlier ++ move :: later)
    (enters : (StateId.batchStart region.id (number + 1)).text ∈ move.onto ∨
      move.state = (StateId.batchJoin region.id number).text ∧ Ending.success.id ∈ move.onto)
    {key : String} (inBatch : key ∈ batch) :
    ∃ done ∈ earlier, done.state = (StateId.task key).text ∧ done.on = .proceed := by
  -- the run as it was right after the move
  have split : run.moves = (earlier ++ [move]) ++ later := by simp [moves]
  obtain ⟨past, before, history⟩ := reached.past split
  have made : move ∈ past.moves := by simp [history]
  obtain ⟨there, proceeds, leads⟩ := state_of_enters (before.balanced consistent.wired).1 made enters
  have passed := Run.passes_ne_zero_of_mem made proceeds leads
  obtain ⟨done, happened, same, success⟩ :=
    exists_proceed_of_join consistent before member place (there ▸ passed) inBatch
  rw [history] at happened
  rcases List.mem_append.1 happened with first | last
  · exact ⟨done, first, same, success⟩
  · -- the move itself is none of a task
    rw [List.mem_singleton.1 last, there] at same
    cases StateId.text_injective same

theorem stopped_of_reached {key : String} (inBatch : key ∈ batch) {move : Move} (made : move ∈ run.moves)
    (there : move.state = (StateId.task key).text) (failed : move.on = .error) :
    0 < run.latches.pending ⟨(StateId.batchJoin region.id number).text, epoch⟩ ∧
      (StateId.batchStart region.id (number + 1)).text ∉ run.entered := by
  obtain ⟨counted, latched⟩ := reached.balanced consistent.wired
  have branch : (graph.nodeAt key).stage (region.join number).id ∈ (partition.machine graph).stages :=
    mem_stages_machine.2 (.branch member place inBatch)
  have named := consistent.selfKeyed.id_stage key (region.join number).id
  have opened : ((graph.nodeAt key).stage (region.join number).id).id ∈
      (region.start batch number).continueTargets := by
    rw [named, Region.continueTargets_start, if_neg (List.ne_nil_of_mem inBatch)]
    exact List.mem_map_of_mem (List.mem_map_of_mem inBatch)
  obtain ⟨closed, waits⟩ := Run.pending_pos_of_failed consistent.wired counted latched
    (consistent.meets member place) branch rfl opened (List.mem_singleton_self _) made (there.trans named.symm)
    failed
  refine ⟨waits, fun entered => ?_⟩
  have fresh : (StateId.batchStart region.id (number + 1)).text ∉ partition.starts :=
    next_not_mem_starts (mem_numbered.1 place).1
  have different : (StateId.batchStart region.id (number + 1)).text ≠ (StateId.final .failure).text :=
    fun same => by cases StateId.text_injective same
  obtain ⟨stage, stored, leads, passed⟩ := counted.exists_passed fresh different entered
  rw [id_of_leads_to_next stored leads] at passed
  exact passed closed

end

theorem inflow_success (graph : Graph) (partition : Partition) :
    (partition.machine graph).inflow partition.starts Ending.success.id = partition.entries.length := by
  rw [← count_crossings_success, ← inflow_machine graph]
  rfl

theorem Consistent.orderly (consistent : Consistent settings graph partition) {epoch : Nat} {run : Run}
    (reached : run.Reached (partition.machine graph) epoch partition.starts) :
    partition.Orderly (partition.machine graph) epoch run := by
  have wired := consistent.wired
  obtain ⟨counted, latched⟩ := reached.balanced wired
  constructor
  case served => exact fun stage event ready => Run.exists_advance wired counted latched ready
  case once =>
    intro stage member role
    rw [← wired.single stage member (by simp [role])]
    exact Run.entered_le_inflow wired counted latched (wired.sound.stage_id_ne member .failure)
  case ordered =>
    intro region member batch number place
    refine ⟨next_not_mem_starts (mem_numbered.1 place).1, fun earlier move later moves enters key inBatch => ?_⟩
    exact ordered_of_reached consistent reached member place moves enters inBatch
  case stopped =>
    intro region member batch number place key inBatch move made there failed
    exact stopped_of_reached consistent reached member place inBatch made there failed
  case complete =>
    intro flawless still
    have quiet : ∀ stage ∈ (partition.machine graph).stages, stage.id ∉ run.tokens := fun stage member on =>
      still stage .proceed ⟨on, Machine.stageAt?_of_mem_stages wired.sound.distinct member, fun _ => rfl⟩
    refine ⟨fun stage member role => ?_, Run.armed_eq_zero wired counted latched flawless quiet, ?_⟩
    · rw [Run.entered_eq_inflow wired counted latched flawless quiet, wired.single stage member (by simp [role])]
    · rw [Run.tokens_eq_replicate wired counted latched flawless quiet, inflow_success]

/-- Every run of a compiled machine is orderly, and none goes on for ever. -/
theorem orderly_of_compile {machine : Machine} (reviewing : settings.reviewPartition = true)
    (compiled : partition.compile settings graph = .ok machine) (epoch : Nat) :
    (∀ run, Run.Reached machine epoch partition.starts run → partition.Orderly machine epoch run) ∧
      ∃ bound, ∀ run, Run.Reached machine epoch partition.starts run → run.moves.length ≤ bound := by
  obtain ⟨consistent, rfl⟩ := consistent_of_compile reviewing compiled
  refine ⟨fun run reached => consistent.orderly reached, ?_⟩
  have finite : ∀ run, Run.Reached (partition.machine graph) epoch partition.starts run → run.moves.length ≤
      ((partition.machine graph).stages.map fun stage =>
        (partition.machine graph).inflow partition.starts stage.id).sum := by
    intro run reached
    obtain ⟨counted, latched⟩ := reached.balanced consistent.wired
    exact Run.length_moves_le consistent.wired counted latched
  exact ⟨_, finite⟩

/-- Everything succeeds; the first batch begins before the chain. -/
def smooth : List (StateId × Event) :=
  [(.batchStart "body" 1, .proceed), (.task "c", .proceed), (.task "a", .proceed),
    (.batchJoin "body" 1, .proceed), (.task "b", .proceed), (.batchJoin "body" 1, .proceed),
    (.batchStart "body" 2, .proceed), (.task "d", .proceed), (.batchJoin "body" 2, .proceed)]

/-- A node of the first batch fails after the other one has arrived. -/
def broken : List (StateId × Event) :=
  [(.batchStart "body" 1, .proceed), (.task "c", .proceed), (.batchJoin "body" 1, .proceed),
    (.task "b", .error)]

def played (schedule : List (StateId × Event)) : Option Run :=
  (Run.begin diamond.starts).play (diamond.machine diamondGraph) 1
    (schedule.map fun entry => (entry.1.text, entry.2))

theorem reached_of_played {schedule : List (StateId × Event)} {run : Run} (found : played schedule = some run) :
    Run.Reached (diamond.machine diamondGraph) 1 diamond.starts run :=
  Run.reached_iff_exists_play.2 ⟨_, found⟩

theorem orderly_diamond :
    ({} : Settings).reviewPartition = true ∧ ∃ machine, diamond.compile {} diamondGraph = .ok machine ∧
      (∃ run, Run.Reached machine 1 diamond.starts run ∧ diamond.Orderly machine 1 run ∧
        (∀ stage event, ¬ run.CanMove machine stage event) ∧
        ((∀ stage ∈ machine.stages, stage.role = .task → run.entered.count stage.id = 1) ∧
          run.latches.armed = 0 ∧ run.tokens = List.replicate 2 Ending.success.id) ∧
        ∃ earlier later, run.moves = earlier ++
            ⟨(StateId.batchJoin "body" 1).text, .proceed, [(StateId.batchStart "body" 2).text]⟩ :: later ∧
          ∀ key ∈ ["b", "c"], ∃ done ∈ earlier, done.state = (StateId.task key).text ∧ done.on = .proceed) ∧
      (∃ run, Run.Reached machine 1 diamond.starts run ∧ diamond.Orderly machine 1 run ∧
        ⟨(StateId.task "b").text, .error, [Ending.failure.id]⟩ ∈ run.moves ∧
        0 < run.latches.pending ⟨(StateId.batchJoin "body" 1).text, 1⟩ ∧
        (StateId.batchStart "body" 2).text ∉ run.entered) ∧
      ∃ bound, ∀ run, Run.Reached machine 1 diamond.starts run → run.moves.length ≤ bound := by
  have compiled := consistent_diamond.compile
  obtain ⟨orderly, bounded⟩ := orderly_of_compile rfl compiled 1
  have body : { id := "body", batches := [["b", "c"], ["d"]], joins := ["d"] } ∈ diamond.regions :=
    List.mem_singleton_self _
  refine ⟨rfl, _, compiled, ?finished, ?stuck, bounded⟩
  case finished =>
    obtain ⟨run, found⟩ : ∃ run, played smooth = some run := Option.isSome_iff_exists.1 (by decide +kernel)
    obtain ⟨flawless, tokens, moves⟩ : (∀ move ∈ run.moves, move.on = .proceed) ∧
        run.tokens = List.replicate 2 Ending.success.id ∧ run.moves = run.moves.take 5 ++
          ⟨(StateId.batchJoin "body" 1).text, .proceed, [(StateId.batchStart "body" 2).text]⟩ ::
            run.moves.drop 6 := by
      revert run
      decide +kernel
    have reached := reached_of_played found
    have still : ∀ stage event, ¬ run.CanMove (diamond.machine diamondGraph) stage event := by
      rintro stage event ⟨on, stored, -⟩
      have ended : (diamond.machine diamondGraph).stageAt? Ending.success.id = none := by decide +kernel
      rw [tokens] at on
      rw [List.eq_of_mem_replicate on, ended] at stored
      cases stored
    have complete := (orderly run reached).complete flawless still
    obtain ⟨-, before⟩ := (orderly run reached).ordered _ body ["b", "c"] 1 List.mem_cons_self
    exact ⟨run, reached, orderly run reached, still, complete, _, _, moves,
      before _ _ _ moves (.inl List.mem_cons_self)⟩
  case stuck =>
    obtain ⟨run, found⟩ : ∃ run, played broken = some run := Option.isSome_iff_exists.1 (by decide +kernel)
    have failed : ⟨(StateId.task "b").text, .error, [Ending.failure.id]⟩ ∈ run.moves := by
      revert run
      decide +kernel
    have reached := reached_of_played found
    obtain ⟨waits, closed⟩ := (orderly run reached).stopped _ body ["b", "c"] 1 List.mem_cons_self "b"
      List.mem_cons_self _ failed rfl rfl
    exact ⟨run, reached, orderly run reached, failed, waits, closed⟩

end Partition

end Orchestration
