import Orchestration.Proofs.Acceptance
import Orchestration.Proofs.FanOut
import Orchestration.Proofs.Wiring

/-! Compilation of reviewed partitions. Where the review has no error, nothing stops the draft,
and the machine it gives is one that an audit has nothing to say about. -/

set_option autoImplicit false

namespace Orchestration.Partition

variable {graph : Graph} {partition : Partition} {settings : Settings} {stage : Stage}

theorem failures_machine (member : stage ∈ (partition.machine graph).stages) :
    stage.failures = [failOver] := by
  cases mem_stages_machine.1 member with
  | start => exact Region.failures_start ..
  | _ => rfl

theorem stage_machine (member : stage ∈ (partition.machine graph).stages) :
    stage.role = .batchStart ∧ (∃ region ∈ partition.regions, ∃ batch number,
      (batch, number) ∈ region.numbered ∧ stage = region.start batch number) ∨
    stage.role ≠ .batchStart ∧ ∃ next, stage.transitions = [proceedTo next, failOver] := by
  cases mem_stages_machine.1 member with
  | start inRegions place => exact .inl ⟨rfl, _, inRegions, _, _, place, rfl⟩
  | step => exact .inr ⟨(fun role => by cases role), _, rfl⟩
  | branch => exact .inr ⟨(fun role => by cases role), _, rfl⟩
  | join => exact .inr ⟨(fun role => by cases role), _, rfl⟩

section

variable (selfKeyed : graph.SelfKeyed) (distinct : (partition.machine graph).ids.Nodup)
  {region : Region} {batch : List String} {number : Nat}

include distinct in
theorem role?_join (member : region ∈ partition.regions) (place : (batch, number) ∈ region.numbered) :
    (partition.machine graph).role? (StateId.batchJoin region.id number).text = some .batchJoin :=
  Machine.role?_of_mem_stages distinct (mem_stages_machine.2 (.join member place))

include selfKeyed distinct in
theorem firstStage?_branch (member : region ∈ partition.regions) (place : (batch, number) ∈ region.numbered)
    {key : String} (inBatch : key ∈ batch) :
    (partition.machine graph).firstStage? (StateId.task key).text =
      some ((graph.nodeAt key).stage (StateId.batchJoin region.id number).text) := by
  have found := Machine.firstStage?_of_mem_stages distinct
    (mem_stages_machine.2 (.branch member place inBatch))
  rwa [selfKeyed.id_stage] at found

include selfKeyed distinct in
theorem fansOut_start (once : batch.Nodup) (member : region ∈ partition.regions)
    (place : (batch, number) ∈ region.numbered) :
    (partition.machine graph).FansOut (region.start batch number) := by
  have joins := role?_join distinct member place
  -- an empty batch goes straight to its join, any other through tasks that all lead there
  by_cases empty : batch = []
  · left
    refine ⟨proceedTo (StateId.batchJoin region.id number).text, ?_, rfl, joins⟩
    rw [Region.continues_start, if_pos empty]
  · right
    have branches := Region.continues_start region batch number
    have targets := Region.continueTargets_start region batch number
    rw [if_neg empty] at branches targets
    have found : ∀ target ∈ (region.start batch number).continueTargets, ∃ node : Node,
        (partition.machine graph).firstStage? target =
          some (node.stage (StateId.batchJoin region.id number).text) := by
      intro target leads
      rw [targets, List.map_map] at leads
      obtain ⟨key, inBatch, rfl⟩ := List.mem_map.1 leads
      exact ⟨_, firstStage?_branch selfKeyed distinct member place inBatch⟩
    have goal : ∀ goal ∈ (partition.machine graph).goals (region.start batch number).continueTargets,
        goal = (StateId.batchJoin region.id number).text := by
      intro goal reached
      obtain ⟨target, leads, stage, first, _, onward⟩ := Machine.mem_goals.1 reached
      obtain ⟨node, known⟩ := found target leads
      cases first.symm.trans known
      exact List.mem_singleton.1 onward
    refine ⟨?_, ?_, ?_, ?_, ?_⟩
    · rw [branches]
      simpa using empty
    · intro edge leaves
      rw [branches] at leaves
      obtain ⟨key, _, rfl⟩ := List.mem_map.1 leaves
      rfl
    · rw [targets]
      exact (once.map fun _ _ => StateId.task.inj).map StateId.text_injective
    · intro target leads role known
      obtain ⟨node, first⟩ := found target leads
      rw [Machine.role?, first] at known
      exact (Option.some.inj known).symm
    · intro reached member
      rw [goal reached member]
      exact ⟨joins, goal⟩

end

theorem nodup_ids_machine (selfKeyed : graph.SelfKeyed) (apart : partition.names.Nodup) :
    (partition.machine graph).ids.Nodup := by
  rw [selfKeyed.ids_machine]
  exact apart.map StateId.text_injective

theorem nodup_of_numbered (apart : partition.names.Nodup) {region : Region} {batch : List String}
    {number : Nat} (member : region ∈ partition.regions) (place : (batch, number) ∈ region.numbered) :
    batch.Nodup := by
  have inStages := sublist_stageNames_of_batch member place
  have branches : (batch.map StateId.task).Sublist (region.batchNames batch number) :=
    (List.sublist_append_left _ _).cons _
  exact (apart.sublist (branches.trans (sublist_names_of_stageNames inStages))).of_map

theorem count_final_machine (graph : Graph) (partition : Partition) (ending : Ending) :
    (partition.machine graph).states.count (.final ending.id) = 1 := by
  have stages : ((partition.stages graph).map State.stage).count (.final ending.id) = 0 := by
    simp [List.count_eq_zero]
  rw [machine, List.count_append, stages]
  cases ending <;> decide

theorem ending_of_mem_machine {id : String} (member : .final id ∈ (partition.machine graph).states) :
    ∃ ending : Ending, id = ending.id := by
  simp only [machine, List.mem_append, List.mem_map, reduceCtorEq, and_false, exists_false, false_or,
    List.mem_cons, State.final.injEq, List.not_mem_nil, or_false] at member
  rcases member with success | failure
  · exact ⟨.success, success⟩
  · exact ⟨.failure, failure⟩

theorem eq_failOver_of_error (member : stage ∈ (partition.machine graph).stages) {edge : Transition}
    (leaves : edge ∈ stage.transitions) (error : edge.on = .error) : edge = failOver := by
  have fails := Machine.mem_failures.2 ⟨leaves, error⟩
  rwa [failures_machine member, List.mem_singleton] at fails

/-- Whatever an edge is taken on, it leads forward. -/
theorem forward_machine_of_edge (selfKeyed : graph.SelfKeyed) (member : stage ∈ (partition.machine graph).stages)
    {edge : Transition} (leaves : edge ∈ stage.transitions) :
    [stage.id, edge.target].Sublist (partition.machine graph).ids := by
  cases on : edge.on with
  | proceed =>
    have continues := Machine.mem_continues.2 ⟨leaves, on⟩
    exact forward_machine selfKeyed member (Machine.mem_continueTargets.2 ⟨edge, continues, rfl⟩)
  | error =>
    obtain ⟨name, listed, named, _⟩ := (mem_stages_machine.1 member).forward selfKeyed
    rw [eq_failOver_of_error member leaves on, named, selfKeyed.ids_machine]
    exact (sublist_names_of_ending listed .failure).map StateId.text

theorem target_mem_ids_machine (selfKeyed : graph.SelfKeyed) (member : stage ∈ (partition.machine graph).stages)
    {edge : Transition} (leaves : edge ∈ stage.transitions) :
    edge.target ∈ (partition.machine graph).ids :=
  (forward_machine_of_edge selfKeyed member leaves).subset (List.mem_cons_of_mem _ List.mem_cons_self)

theorem marks_machine (member : stage ∈ (partition.machine graph).stages) {edge : Transition}
    (leaves : edge ∈ stage.transitions) (marked : edge.parallel = true) :
    edge.on = .proceed ∧ stage.role = .batchStart := by
  constructor
  · cases on : edge.on with
    | proceed => rfl
    | error =>
      rw [eq_failOver_of_error member leaves on] at marked
      cases marked
  · rcases stage_machine member with ⟨role, _⟩ | ⟨_, next, transitions⟩
    · exact role
    · rw [transitions] at leaves
      rcases List.mem_pair.1 leaves with rfl | rfl <;> cases marked

theorem sound_machine (selfKeyed : graph.SelfKeyed) (apart : partition.names.Nodup) :
    (partition.machine graph).Sound := by
  have distinct := nodup_ids_machine selfKeyed apart
  constructor
  case distinct => exact distinct
  case endings => exact count_final_machine graph partition
  case finals => exact fun id member => ending_of_mem_machine member
  case targets => exact fun stage member edge leaves => target_mem_ids_machine selfKeyed member leaves
  case failures => exact fun stage member => ⟨failOver, failures_machine member, rfl⟩
  case marks => exact fun stage member edge leaves marked => marks_machine member leaves marked
  case continues =>
    intro stage member role
    rcases stage_machine member with ⟨other, _⟩ | ⟨_, next, transitions⟩
    · exact absurd other role
    · exact ⟨proceedTo next, by rw [Stage.continues, transitions]; rfl⟩
  case fanOuts =>
    intro stage member role
    rcases stage_machine member with ⟨_, region, inRegions, batch, number, place, rfl⟩ | ⟨other, _⟩
    · exact fansOut_start selfKeyed distinct (nodup_of_numbered apart inRegions place) inRegions place
    · exact absurd role other

theorem mem_targets_of_continueTargets {target : String} (member : stage ∈ (partition.machine graph).stages)
    (leaves : target ∈ stage.continueTargets) : target ∈ (partition.machine graph).targets := by
  obtain ⟨edge, continues, rfl⟩ := Machine.mem_continueTargets.1 leaves
  exact List.mem_flatMap.2 ⟨stage, member, List.mem_map_of_mem (Machine.mem_continues.1 continues).1⟩

theorem unreachedIssue?_machine (member : stage ∈ (partition.machine graph).stages) :
    (partition.machine graph).unreachedIssue? stage = none := by
  apply if_neg
  intro reported
  obtain ⟨role, unreached⟩ := reported
  apply unreached
  cases mem_stages_machine.1 member with
  | step => cases role
  | start => cases role
  | branch => cases role
  | @join region batch number inRegions place =>
    cases batch with
    | nil =>
      apply mem_targets_of_continueTargets (mem_stages_machine.2 (.start inRegions place))
      exact List.mem_singleton_self _
    | cons key rest =>
      have emitted : partition.Emits graph
          ((graph.nodeAt key).stage (StateId.batchJoin region.id number).text) :=
        .branch inRegions place List.mem_cons_self
      have branch := mem_stages_machine.2 emitted
      exact mem_targets_of_continueTargets branch (List.mem_singleton_self _)

theorem issues_machine (selfKeyed : graph.SelfKeyed) (apart : partition.names.Nodup) :
    (partition.machine graph).issues = [] := by
  rw [Machine.issues_eq, Machine.faults_eq_nil_iff.2 (sound_machine selfKeyed apart), List.nil_append,
    List.filterMap_eq_nil_iff]
  exact fun stage member => unreachedIssue?_machine member

namespace Consistent

variable (consistent : Consistent settings graph partition)
include consistent

theorem nodup_listed : partition.listed.Nodup := by
  rw [List.nodup_iff_count]
  intro key
  by_cases member : key ∈ partition.listed
  · exact consistent.once key (consistent.known key member)
  · rw [List.count_eq_zero_of_not_mem member]
    exact Nat.zero_le 1

theorem nodup_names : partition.names.Nodup := by
  refine (nodup_names_iff partition).2 ⟨consistent.nodup_listed, ?_⟩
  exact consistent.regions.sublist (List.filter_sublist.map Region.id)

theorem emit : partition.emit graph = .ok (partition.machine graph) :=
  emit_eq_ok consistent.known (nodup_ids_machine consistent.selfKeyed consistent.nodup_names)

theorem issues : (partition.machine graph).issues = [] :=
  issues_machine consistent.selfKeyed consistent.nodup_names

theorem produce : partition.produce settings graph = .ok (partition.machine graph) := by
  have audited : (partition.machine graph).audit.hasErrors = false := by
    rw [Machine.audit, consistent.issues]
    rfl
  rw [Partition.produce, consistent.emit]
  simp [Machine.vet, audited]

theorem compile : partition.compile settings graph = .ok (partition.machine graph) := by
  have accepted : (partition.review settings graph).hasErrors = false :=
    Report.hasErrors_ofIssues_eq_false_iff.2 (harmless_issues_iff.2 consistent)
  simp [Partition.compile, accepted, consistent.produce]

end Consistent

theorem consistent_of_compile {machine : Machine} (reviewing : settings.reviewPartition = true)
    (compiled : partition.compile settings graph = .ok machine) :
    Consistent settings graph partition ∧ machine = partition.machine graph := by
  cases verdict : (partition.review settings graph).hasErrors with
  | true => simp [compile, reviewing, verdict] at compiled
  | false =>
    have consistent := consistent_of_accepted verdict
    rw [consistent.compile] at compiled
    exact ⟨consistent, (Except.ok.inj compiled).symm⟩

/-- Which checks run makes no difference to what is consistent. -/
theorem Consistent.withChecks (consistent : Consistent settings graph partition) (reviewing auditing : Bool) :
    Consistent { settings with reviewPartition := reviewing, auditMachine := auditing } graph partition :=
  ⟨consistent.closed, consistent.selfKeyed, consistent.acyclic, consistent.known, consistent.once,
    consistent.regions, consistent.joins, consistent.coverage⟩

/-- A review without errors is all that compiling needs: the same machine comes out whichever checks
run, and an audit has nothing to say about it. Where the review runs, its errors are the only reason
not to compile. -/
theorem review_decides_compile (settings : Settings) (graph : Graph) (partition : Partition) :
    ((partition.review settings graph).hasErrors = false →
      ∃ machine : Machine, machine.audit.findings = [] ∧ ∀ reviewing auditing,
        partition.compile { settings with reviewPartition := reviewing, auditMachine := auditing } graph =
          .ok machine) ∧
    (settings.reviewPartition = true →
      ((∃ report, partition.compile settings graph = .error (.invalidPartition report)) ↔
        (partition.review settings graph).hasErrors = true) ∧
      ∀ error, partition.compile settings graph = .error error →
        error = .invalidPartition (partition.review settings graph)) := by
  have accepts : (partition.review settings graph).hasErrors = false → Consistent settings graph partition :=
    fun accepted => harmless_issues_iff.1 (Report.hasErrors_ofIssues_eq_false_iff.1 accepted)
  refine ⟨fun accepted => ⟨partition.machine graph, ?_, fun reviewing auditing => ?_⟩, fun reviewing => ?_⟩
  · rw [Machine.audit, (accepts accepted).issues]
    rfl
  · exact ((accepts accepted).withChecks reviewing auditing).compile
  · cases verdict : (partition.review settings graph).hasErrors with
    | false => simp [(accepts verdict).compile]
    | true =>
      have refused : partition.compile settings graph =
          .error (.invalidPartition (partition.review settings graph)) := by
        simp [Partition.compile, reviewing, verdict]
      simp [refused]

def diamondGraph : Graph where
  nodes := .ofList <| [{ id := "a" }, { id := "b", deps := ["a"] }, { id := "c", deps := ["a"] },
    { id := "d", deps := ["b", "c"] }].map fun node : Node => (node.id, node)

def diamond : Partition where
  chains := [{ id := "head", path := ["a"] }]
  regions := [{ id := "body", batches := [["b", "c"], ["d"]], joins := ["d"] }]

theorem consistent_diamond : Consistent {} diamondGraph diamond :=
  consistent_of_accepted (by decide +kernel)

theorem compile_diamond :
    ∃ machine : Machine, machine.audit.findings = [] ∧ ∀ reviewing auditing,
      diamond.compile { reviewPartition := reviewing, auditMachine := auditing, joinPolicy := .enforce }
        diamondGraph = .ok machine :=
  (review_decides_compile { joinPolicy := .enforce } diamondGraph diamond).1 (by decide +kernel)

end Orchestration.Partition
