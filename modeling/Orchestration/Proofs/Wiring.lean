import Mathlib.Data.List.Flatten
import Orchestration.Proofs.Emission

/-! How the stages of a partition's machine are connected. Every stage comes from one place of
the partition, and its edges lead on to states that come later in the list. -/

set_option autoImplicit false

namespace Orchestration

section

variable (node : Node) (next : String) (region : Region) (batch : List String) (number : Nat)

theorem Node.continueTargets_stage : (node.stage next).continueTargets = [next] := rfl

theorem Region.continues_start :
    (region.start batch number).continues =
      if batch = [] then [proceedTo (StateId.batchJoin region.id number).text]
      else batch.map fun key => branchTo (StateId.task key).text := by
  have branches : (batch.map fun key => branchTo (StateId.task key).text).filter (·.on = .proceed) =
      batch.map fun key => branchTo (StateId.task key).text := by
    simp [List.filter_eq_self, branchTo]
  rw [Stage.continues, start, List.filter_append]
  split
  · rfl
  · rw [branches]
    exact List.append_nil _

theorem Region.failures_start : (region.start batch number).failures = [failOver] := by
  have branches : (batch.map fun key => branchTo (StateId.task key).text).filter (·.on = .error) = [] := by
    simp [List.filter_eq_nil_iff, branchTo]
  rw [Stage.failures, start, List.filter_append]
  split
  · rfl
  · rw [branches]
    rfl

theorem Region.continueTargets_start :
    (region.start batch number).continueTargets =
      (if batch = [] then [StateId.batchJoin region.id number] else batch.map .task).map StateId.text := by
  rw [Stage.continueTargets, continues_start]
  split
  · rfl
  · simp [branchTo]

theorem Region.continueTargets_join :
    (region.join number).continueTargets = [region.follower number] := rfl

end

variable {graph : Graph} {partition : Partition}

/-- The stages of a partition's machine, by where they come from. -/
inductive Partition.Emits (graph : Graph) (partition : Partition) : Stage → Prop where
  | step {chain : Chain} {before after : List String} {key : String}
      (member : chain ∈ partition.chains) (path : chain.path = before ++ key :: after) :
      Emits graph partition ((graph.nodeAt key).stage (following after))
  | start {region : Region} {batch : List String} {number : Nat}
      (member : region ∈ partition.regions) (place : (batch, number) ∈ region.numbered) :
      Emits graph partition (region.start batch number)
  | branch {region : Region} {batch : List String} {number : Nat} {key : String}
      (member : region ∈ partition.regions) (place : (batch, number) ∈ region.numbered)
      (inBatch : key ∈ batch) :
      Emits graph partition ((graph.nodeAt key).stage (StateId.batchJoin region.id number).text)
  | join {region : Region} {batch : List String} {number : Nat}
      (member : region ∈ partition.regions) (place : (batch, number) ∈ region.numbered) :
      Emits graph partition (region.join number)

theorem Graph.mem_serial {stage : Stage} {path : List String} :
    stage ∈ graph.serial path ↔ ∃ before key after, path = before ++ key :: after ∧
      stage = (graph.nodeAt key).stage (following after) := by
  induction path with
  | nil => simp [serial]
  | cons first rest ih =>
    rw [serial, List.mem_cons, ih]
    constructor
    · intro placed
      rcases placed with rfl | ⟨before, key, after, rfl, rfl⟩
      · exact ⟨[], first, rest, rfl, rfl⟩
      · exact ⟨first :: before, key, after, rfl, rfl⟩
    · intro placed
      rcases placed with ⟨before, key, after, path, rfl⟩
      cases before with
      | nil =>
        cases path
        exact .inl rfl
      | cons other before =>
        cases path
        exact .inr ⟨before, key, after, rfl, rfl⟩

theorem Partition.stages_machine (graph : Graph) (partition : Partition) :
    (partition.machine graph).stages = partition.stages graph := by
  have stages : State.stage? ∘ State.stage = some := rfl
  simp [Machine.stages, machine, List.filterMap_append, List.filterMap_map, stages, State.stage?]

theorem Partition.mem_stages_machine {stage : Stage} :
    stage ∈ (partition.machine graph).stages ↔ partition.Emits graph stage := by
  rw [stages_machine, stages, List.mem_append]
  simp only [List.mem_flatMap, Graph.mem_serial, Region.stages, Region.batchStages, Prod.exists,
    List.mem_append, List.mem_cons, List.mem_map, List.not_mem_nil, or_false]
  constructor
  · intro listed
    rcases listed with ⟨chain, member, before, key, after, path, rfl⟩ |
      ⟨region, member, batch, number, place, (rfl | ⟨key, inBatch, rfl⟩) | rfl⟩
    · exact .step member path
    · exact .start member place
    · exact .branch member place inBatch
    · exact .join member place
  · intro emitted
    cases emitted with
    | step member path => exact .inl ⟨_, member, _, _, _, path, rfl⟩
    | start member place => exact .inr ⟨_, member, _, _, place, .inl (.inl rfl)⟩
    | branch member place inBatch => exact .inr ⟨_, member, _, _, place, .inl (.inr ⟨_, inBatch, rfl⟩)⟩
    | join member place => exact .inr ⟨_, member, _, _, place, .inr rfl⟩

/-- Where a stage leads on success, by what is found there. -/
inductive Partition.Leads (graph : Graph) (partition : Partition) : Stage → StateId → Prop where
  | task (stage : Stage) (key : String) : Leads graph partition stage (.task key)
  | success (stage : Stage) : Leads graph partition stage (.final .success)
  | direct {region : Region} {number : Nat} (member : region ∈ partition.regions)
      (place : ([], number) ∈ region.numbered) :
      Leads graph partition (region.start [] number) (.batchJoin region.id number)
  | gather {region : Region} {batch : List String} {number : Nat} {key : String}
      (member : region ∈ partition.regions) (place : (batch, number) ∈ region.numbered)
      (inBatch : key ∈ batch) :
      Leads graph partition ((graph.nodeAt key).stage (StateId.batchJoin region.id number).text)
        (.batchJoin region.id number)
  | next {region : Region} {batch : List String} {number : Nat}
      (member : region ∈ partition.regions) (place : (batch, number) ∈ region.numbered) :
      Leads graph partition (region.join number) (.batchStart region.id (number + 1))

theorem Partition.Emits.leads {stage : Stage} {name : StateId} (emitted : partition.Emits graph stage)
    (leaves : name.text ∈ stage.continueTargets) : partition.Leads graph stage name := by
  cases emitted with
  | @step chain before after key inChains path =>
    rw [Node.continueTargets_stage, List.mem_singleton] at leaves
    cases after with
    | nil =>
      have same : name.text = (StateId.final .success).text := leaves
      cases StateId.text_injective same
      exact .success _
    | cons next rest =>
      have same : name.text = (StateId.task next).text := leaves
      cases StateId.text_injective same
      exact .task _ next
  | @start region batch number inRegions place =>
    rw [Region.continueTargets_start] at leaves
    obtain ⟨other, branch, same⟩ := List.mem_map.1 leaves
    cases StateId.text_injective same
    by_cases empty : batch = []
    · subst empty
      cases List.mem_singleton.1 branch
      exact .direct inRegions place
    · rw [if_neg empty] at branch
      obtain ⟨key, _, rfl⟩ := List.mem_map.1 branch
      exact .task _ key
  | @branch region batch number key inRegions place inBatch =>
    rw [Node.continueTargets_stage, List.mem_singleton] at leaves
    cases StateId.text_injective leaves
    exact .gather inRegions place inBatch
  | @join region batch number inRegions place =>
    rw [Region.continueTargets_join, List.mem_singleton, Region.follower] at leaves
    split at leaves
    · have same : name.text = (StateId.final .success).text := leaves
      cases StateId.text_injective same
      exact .success _
    · cases StateId.text_injective leaves
      exact .next inRegions place

namespace Partition

variable {region : Region} {batch : List String} {number : Nat} {lane : List StateId}

/-- The states of each chain and of each region, in order. -/
def lanes (partition : Partition) : List (List StateId) :=
  partition.chains.map (fun chain => chain.path.map .task) ++ partition.regions.map Region.names

theorem flatten_lanes (partition : Partition) : partition.lanes.flatten = partition.stageNames := by
  simp [lanes, stageNames, List.flatMap_def]

theorem mem_lanes : lane ∈ partition.lanes ↔
    (∃ chain ∈ partition.chains, chain.path.map StateId.task = lane) ∨
      ∃ region ∈ partition.regions, region.names = lane := by
  simp only [lanes, List.mem_append, List.mem_map]

theorem sublist_stageNames_of_lane (member : lane ∈ partition.lanes) : lane.Sublist partition.stageNames := by
  rw [← flatten_lanes]
  exact List.sublist_flatten_of_mem member

theorem sublist_stageNames_of_chain {chain : Chain} (member : chain ∈ partition.chains) :
    (chain.path.map StateId.task).Sublist partition.stageNames :=
  sublist_stageNames_of_lane (mem_lanes.2 (.inl ⟨chain, member, rfl⟩))

theorem sublist_names_of_batch (place : (batch, number) ∈ region.numbered) :
    (region.batchNames batch number).Sublist region.names := by
  have inRegion := (List.singleton_sublist.2 place).flatMap fun numbered =>
    region.batchNames numbered.1 numbered.2
  rwa [List.flatMap_singleton] at inRegion

theorem sublist_stageNames_of_batch (member : region ∈ partition.regions)
    (place : (batch, number) ∈ region.numbered) :
    (region.batchNames batch number).Sublist partition.stageNames :=
  (sublist_names_of_batch place).trans (sublist_stageNames_of_lane (mem_lanes.2 (.inr ⟨region, member, rfl⟩)))

theorem sublist_names_of_ending {name : StateId} (member : name ∈ partition.stageNames) (ending : Ending) :
    [name, .final ending].Sublist partition.names := by
  have first := List.singleton_sublist.2 member
  have last : [StateId.final ending].Sublist [.final .success, .final .failure] := by
    cases ending <;> simp
  exact first.append last

theorem sublist_names_of_next (place : (batch, number) ∈ region.numbered)
    (more : number ≠ region.batches.length) :
    [.batchJoin region.id number, .batchStart region.id (number + 1)].Sublist region.names := by
  obtain ⟨positive, found⟩ := mem_numbered.1 place
  obtain ⟨inside, rfl⟩ := List.getElem?_eq_some_iff.1 found
  have room : number < region.batches.length := by omega
  have count : region.numbered.length = region.batches.length := List.length_zipIdx
  have pair : [(region.batches[number - 1], number), (region.batches[number], number + 1)].Sublist
      region.numbered := by
    -- neighbours in the numbering are found by their positions
    let first : Fin region.numbered.length := ⟨number - 1, by omega⟩
    let second : Fin region.numbered.length := ⟨number, by omega⟩
    have ascending : [first, second].Pairwise (· < ·) := by
      simp only [List.pairwise_pair, first, second, Fin.mk_lt_mk]
      omega
    have both := List.map_getElem_sublist ascending
    simpa [first, second, Region.numbered, Nat.add_comm 1, Nat.sub_add_cancel positive] using both
  have names := pair.flatMap fun numbered => region.batchNames numbered.1 numbered.2
  have ends : [StateId.batchJoin region.id number, .batchStart region.id (number + 1)].Sublist
      ([(region.batches[number - 1], number), (region.batches[number], number + 1)].flatMap fun numbered =>
        region.batchNames numbered.1 numbered.2) := by
    simp [Region.batchNames]
  exact ends.trans names

theorem sublist_names_of_stageNames {names : List StateId} (inStages : names.Sublist partition.stageNames) :
    names.Sublist partition.names :=
  inStages.trans (List.sublist_append_left _ _)

/-- A stage stands in a lane, and leads to success or on to later states of that lane. -/
theorem Emits.inLane (selfKeyed : graph.SelfKeyed) {stage : Stage} (emitted : partition.Emits graph stage) :
    ∃ lane ∈ partition.lanes, ∃ name ∈ lane, stage.id = name.text ∧ ∀ target ∈ stage.continueTargets,
      target = Ending.success.id ∨ ∃ next : StateId, target = next.text ∧ [name, next].Sublist lane := by
  cases emitted with
  | @step chain before after key member path =>
    refine ⟨_, mem_lanes.2 (.inl ⟨chain, member, rfl⟩), .task key,
      List.mem_map_of_mem (by rw [path]; exact List.mem_append_cons_self), selfKeyed.id_stage key _,
      fun target leaves => ?_⟩
    rw [Node.continueTargets_stage, List.mem_singleton] at leaves
    cases after with
    | nil => exact .inl leaves
    | cons next rest =>
      refine .inr ⟨.task next, leaves, ?_⟩
      rw [path]
      simp
  | @start region batch number member place =>
    have inNames := sublist_names_of_batch place
    refine ⟨_, mem_lanes.2 (.inr ⟨region, member, rfl⟩), .batchStart region.id number,
      inNames.subset List.mem_cons_self, rfl, fun target leaves => ?_⟩
    rw [Region.continueTargets_start] at leaves
    obtain ⟨next, branch, rfl⟩ := List.mem_map.1 leaves
    refine .inr ⟨next, rfl, List.Sublist.trans ?_ inNames⟩
    -- whatever the start leads to is listed behind it
    have behind : next ∈ batch.map StateId.task ++ [.batchJoin region.id number] := by
      split at branch
      · exact List.mem_append_right _ branch
      · exact List.mem_append_left _ branch
    exact (List.singleton_sublist.2 behind).cons_cons _
  | @branch region batch number key member place inBatch =>
    have pair : [StateId.task key, .batchJoin region.id number].Sublist (region.batchNames batch number) :=
      .cons _ ((List.singleton_sublist.2 (List.mem_map_of_mem inBatch)).append (List.Sublist.refl _))
    have inNames := pair.trans (sublist_names_of_batch place)
    refine ⟨_, mem_lanes.2 (.inr ⟨region, member, rfl⟩), .task key, inNames.subset List.mem_cons_self,
      selfKeyed.id_stage key _, fun target leaves => ?_⟩
    rw [Node.continueTargets_stage, List.mem_singleton] at leaves
    exact .inr ⟨.batchJoin region.id number, leaves, inNames⟩
  | @join region batch number member place =>
    refine ⟨_, mem_lanes.2 (.inr ⟨region, member, rfl⟩), .batchJoin region.id number,
      (sublist_names_of_batch place).subset (List.mem_append_right _ (List.mem_singleton_self _)), rfl,
      fun target leaves => ?_⟩
    rw [Region.continueTargets_join, List.mem_singleton, Region.follower] at leaves
    split at leaves
    · exact .inl leaves
    · next more =>
      exact .inr ⟨.batchStart region.id (number + 1), leaves, sublist_names_of_next place more⟩

theorem Emits.forward (selfKeyed : graph.SelfKeyed) {stage : Stage} (emitted : partition.Emits graph stage) :
    ∃ name ∈ partition.stageNames, stage.id = name.text ∧ ∀ target ∈ stage.continueTargets,
      ∃ next : StateId, target = next.text ∧ [name, next].Sublist partition.names := by
  obtain ⟨lane, member, name, inLane, named, onward⟩ := emitted.inLane selfKeyed
  have inStages := sublist_stageNames_of_lane member
  refine ⟨name, inStages.subset inLane, named, fun target leaves => ?_⟩
  rcases onward target leaves with rfl | ⟨next, rfl, pair⟩
  · exact ⟨.final .success, rfl, sublist_names_of_ending (inStages.subset inLane) .success⟩
  · exact ⟨next, rfl, sublist_names_of_stageNames (pair.trans inStages)⟩

/-- In the machine of a partition every edge that is taken on success leads forward. -/
theorem forward_machine (selfKeyed : graph.SelfKeyed) {stage : Stage} {target : String}
    (member : stage ∈ (partition.machine graph).stages) (leaves : target ∈ stage.continueTargets) :
    [stage.id, target].Sublist (partition.machine graph).ids := by
  obtain ⟨name, _, named, onward⟩ := (mem_stages_machine.1 member).forward selfKeyed
  obtain ⟨next, rfl, pair⟩ := onward target leaves
  rw [named, selfKeyed.ids_machine]
  exact pair.map StateId.text

end Partition

end Orchestration
