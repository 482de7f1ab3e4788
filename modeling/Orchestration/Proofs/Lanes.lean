import Orchestration.Proofs.Convergence
import Orchestration.Proofs.Termination

/-! The lanes of compiled machines. Each chain with steps and each region with batches is entered at its
first state, which no transition leads to. From there all its states are reached, then success, and none
of another chain or region. -/

set_option autoImplicit false

namespace Orchestration

open Relation

namespace Machine

variable {machine : Machine} {starts : List String} {stage : Stage}

/-- Every stage is entered, from outside or along an edge. -/
theorem Wired.inflow_pos (wired : machine.Wired starts) (member : stage ∈ machine.stages) :
    0 < machine.inflow starts stage.id := by
  by_cases role : stage.role = .batchJoin
  · obtain ⟨start, meets⟩ := wired.closed stage member role
    rw [wired.gathers start stage meets, Stage.arrivals]
    omega
  · rw [wired.single stage member role]
    exact Nat.one_pos

theorem Wired.not_mem_targets_iff (wired : machine.Wired starts) (member : stage ∈ machine.stages) :
    stage.id ∉ machine.targets ↔ stage.id ∈ starts := by
  have entered := wired.inflow_pos member
  have split : machine.inflow starts stage.id = starts.count stage.id + machine.targets.count stage.id := by
    rw [wired.sound.count_targets (wired.sound.stage_id_ne member .failure), inflow, List.count_append]
  constructor
  · intro orphan
    rw [List.count_eq_zero_of_not_mem orphan] at split
    exact List.count_pos_iff.1 (by omega)
  · intro begins
    obtain ⟨other, stored, same, role⟩ := wired.begins stage.id begins
    rw [← same, wired.single other stored role, same] at split
    have positive := List.count_pos_iff.2 begins
    exact List.count_eq_zero.1 (by omega)

/-- Starts that are listed in the order of the states are the ids that no transition leads to. -/
theorem Wired.filter_not_mem_targets (wired : machine.Wired starts)
    (ordered : starts.Sublist (machine.stages.map Stage.id)) :
    (machine.stages.map Stage.id).filter (· ∉ machine.targets) = starts := by
  have distinct := Run.nodup_ids_stages wired.sound.distinct
  apply (distinct.perm_iff_eq_of_sublist List.filter_sublist ordered).1
  apply (List.perm_ext_iff_of_nodup (distinct.filter _) (distinct.sublist ordered)).2
  intro id
  rw [List.mem_filter, decide_eq_true_eq]
  constructor
  · rintro ⟨member, orphan⟩
    obtain ⟨stage, stored, rfl⟩ := List.mem_map.1 member
    exact (wired.not_mem_targets_iff stored).1 orphan
  · intro begins
    obtain ⟨stage, stored, rfl⟩ := List.mem_map.1 (ordered.subset begins)
    exact ⟨ordered.subset begins, (wired.not_mem_targets_iff stored).2 begins⟩

end Machine

theorem Region.head?_names (region : Region) :
    region.names.head? = if region.batches = [] then none else some (.batchStart region.id 1) := by
  rw [names, numbered]
  cases region.batches <;> rfl

namespace Partition

variable {settings : Settings} {graph : Graph} {partition : Partition} {lane : List StateId} {name first : StateId}

theorem entries_eq (partition : Partition) : partition.entries = partition.lanes.flatMap (·.take 1) := by
  have chains : ∀ chain : Chain, chain.entry = (chain.path.map StateId.task).take 1 :=
    fun chain => List.map_take
  have regions : ∀ region : Region, region.entry = region.names.take 1 := by
    intro region
    rw [List.take_one, region.head?_names, Region.entry]
    split <;> rfl
  rw [entries, lanes, List.flatMap_append, List.flatMap_map, List.flatMap_map,
    List.flatMap_congr fun chain _ => chains chain, List.flatMap_congr fun region _ => regions region]

theorem mem_entries : first ∈ partition.entries ↔ ∃ lane ∈ partition.lanes, lane.head? = some first := by
  simp [entries_eq, List.take_one]

theorem sublist_stageNames_entries (partition : Partition) :
    partition.entries.Sublist partition.stageNames := by
  have whole : partition.stageNames = partition.lanes.flatMap id := by
    rw [← flatten_lanes, List.flatMap_id]
  rw [entries_eq, whole]
  exact List.Sublist.flatMap_right _ fun lane _ => List.take_sublist 1 lane

theorem sublist_starts (selfKeyed : graph.SelfKeyed) :
    partition.starts.Sublist ((partition.machine graph).stages.map Stage.id) := by
  rw [stages_machine, selfKeyed.map_id_stages]
  exact (sublist_stageNames_entries partition).map StateId.text

/-- No state stands in two lanes. -/
theorem lane_unique (apart : partition.names.Nodup) {other : List StateId} (member : lane ∈ partition.lanes)
    (also : other ∈ partition.lanes) (inLane : name ∈ lane) (inOther : name ∈ other) : other = lane := by
  have distinct : partition.lanes.flatten.Nodup := by
    rw [flatten_lanes]
    exact apart.sublist (List.sublist_append_left _ _)
  have disjoint := (List.nodup_flatten.1 distinct).2
  have : Std.Symm (@List.Disjoint StateId) := ⟨fun _ _ => List.Disjoint.symm⟩
  by_contra different
  exact disjoint.forall also member different inOther inLane

section

variable (selfKeyed : graph.SelfKeyed) (apart : partition.names.Nodup) (member : lane ∈ partition.lanes)
include selfKeyed apart member

/-- Edges that are taken on success do not leave a lane before it ends. -/
theorem goesOn_in_lane (inLane : name ∈ lane) {target : String}
    (goes : (partition.machine graph).GoesOn name.text target) :
    target = Ending.success.id ∨ ∃ next ∈ lane, target = next.text := by
  obtain ⟨stage, stored, named, leaves⟩ := goes
  obtain ⟨other, also, own, inOther, same, onward⟩ := (mem_stages_machine.1 stored).inLane selfKeyed
  cases StateId.text_injective (same.symm.trans named)
  cases lane_unique apart member also inLane inOther
  rcases onward target leaves with success | ⟨next, there, pair⟩
  · exact .inl success
  · exact .inr ⟨next, pair.subset (List.mem_cons_of_mem _ List.mem_cons_self), there⟩

theorem reaches_in_lane (inLane : name ∈ lane) {target : String}
    (path : ReflTransGen (partition.machine graph).GoesOn name.text target) :
    target = Ending.success.id ∨ ∃ next ∈ lane, target = next.text := by
  induction path with
  | refl => exact .inr ⟨name, inLane, rfl⟩
  | tail _ goes ih =>
    rcases ih with rfl | ⟨between, inBetween, rfl⟩
    · obtain ⟨stage, stored, named, _⟩ := goes
      exact absurd named ((sound_machine selfKeyed apart).stage_id_ne stored .success)
    · exact goesOn_in_lane selfKeyed apart member inBetween goes

end

/-- The start of the first batch of a region reaches the starts of all its batches. -/
theorem reaches_start (selfKeyed : graph.SelfKeyed) {region : Region} (member : region ∈ partition.regions)
    {batch : List String} {number : Nat} (place : (batch, number) ∈ region.numbered) :
    ReflTransGen (partition.machine graph).GoesOn (StateId.batchStart region.id 1).text
      (StateId.batchStart region.id number).text := by
  obtain ⟨positive, found⟩ := mem_numbered.1 place
  rcases positive.eq_or_lt with rfl | behind
  · exact .refl
  · obtain ⟨inside, _⟩ := List.getElem?_eq_some_iff.1 found
    have opening : (region.batches[0], 1) ∈ region.numbered :=
      mem_numbered.2 ⟨Nat.le_refl 1, List.getElem?_eq_getElem _⟩
    exact ((reaches_join selfKeyed member opening).trans
      (reaches_later selfKeyed member opening place behind)).to_reflTransGen

/-- The first state of a lane reaches all others. -/
theorem reaches_of_head (selfKeyed : graph.SelfKeyed) (member : lane ∈ partition.lanes)
    (entry : lane.head? = some first) (inLane : name ∈ lane) :
    ReflTransGen (partition.machine graph).GoesOn first.text name.text := by
  rcases mem_lanes.1 member with ⟨chain, inChains, rfl⟩ | ⟨region, inRegions, rfl⟩
  · obtain ⟨key, step, rfl⟩ := List.mem_map.1 inLane
    have onward := reaches_chain selfKeyed inChains
    cases path : chain.path with
    | nil => simp [path] at step
    | cons head rest =>
      rw [path] at entry step onward
      cases entry
      rcases List.mem_cons.1 step with rfl | later
      · exact .refl
      · exact ((List.pairwise_cons.1 onward).1 key later).to_reflTransGen
  · -- whatever belongs to a batch is reached through the start of that batch
    obtain ⟨numbered, place, inBatch⟩ := List.mem_flatMap.1 inLane
    have toStart := reaches_start selfKeyed inRegions place
    obtain rfl : .batchStart region.id 1 = first := by
      rw [region.head?_names] at entry
      split at entry
      · cases entry
      · exact Option.some.inj entry
    simp only [Region.batchNames, List.mem_append, List.mem_cons, List.mem_map, List.not_mem_nil,
      or_false] at inBatch
    rcases inBatch with (rfl | ⟨key, branch, rfl⟩) | rfl
    · exact toStart
    · exact toStart.tail (goesOn_branch inRegions place branch)
    · exact toStart.trans (reaches_join selfKeyed inRegions place).to_reflTransGen

structure KeepsLanes (partition : Partition) (machine : Machine) : Prop where
  entered : (machine.stages.map Stage.id).filter (· ∉ machine.targets) = partition.starts
  owned : ∀ stage ∈ machine.stages,
    ∃! start, start ∈ partition.starts ∧ ReflTransGen machine.GoesOn start stage.id
  chains : ∀ chain ∈ partition.chains, ∀ first rest, chain.path = first :: rest → ∀ id,
    ReflTransGen machine.GoesOn (StateId.task first).text id ↔
      id ∈ chain.path.map (fun key => (StateId.task key).text) ∨ id = Ending.success.id
  regions : ∀ region ∈ partition.regions, region.batches ≠ [] → ∀ id,
    ReflTransGen machine.GoesOn (StateId.batchStart region.id 1).text id ↔
      id ∈ region.names.map StateId.text ∨ id = Ending.success.id

namespace Consistent

variable (consistent : Consistent settings graph partition)
include consistent

theorem reaches_success {stage : Stage} (member : stage ∈ (partition.machine graph).stages) :
    ReflTransGen (partition.machine graph).GoesOn stage.id Ending.success.id := by
  obtain ⟨steps, _, succeeds⟩ := consistent.descends.succeeds stage member
  exact succeeds.reaches

/-- An entry reaches the states of its lane, success, and nothing else. -/
theorem reaches_iff (member : lane ∈ partition.lanes) (entry : lane.head? = some first) {id : String} :
    ReflTransGen (partition.machine graph).GoesOn first.text id ↔
      id ∈ lane.map StateId.text ∨ id = Ending.success.id := by
  have selfKeyed := consistent.selfKeyed
  have inLane : first ∈ lane := List.mem_of_mem_head? entry
  constructor
  · intro path
    rcases reaches_in_lane selfKeyed consistent.nodup_names member inLane path with
      success | ⟨next, inNext, rfl⟩
    · exact .inr success
    · exact .inl (List.mem_map_of_mem inNext)
  · rintro (inside | rfl)
    · obtain ⟨name, inName, rfl⟩ := List.mem_map.1 inside
      exact reaches_of_head selfKeyed member entry inName
    · have begins : first.text ∈ partition.starts :=
        List.mem_map_of_mem (mem_entries.2 ⟨lane, member, entry⟩)
      obtain ⟨stage, stored, named⟩ := List.mem_map.1 ((sublist_starts selfKeyed).subset begins)
      rw [← named]
      exact consistent.reaches_success stored

theorem existsUnique_start {stage : Stage} (member : stage ∈ (partition.machine graph).stages) :
    ∃! start, start ∈ partition.starts ∧ ReflTransGen (partition.machine graph).GoesOn start stage.id := by
  obtain ⟨lane, inLanes, name, inLane, named, _⟩ := (mem_stages_machine.1 member).inLane consistent.selfKeyed
  obtain ⟨first, entry⟩ := Option.isSome_iff_exists.1 (List.isSome_head?.2 (List.ne_nil_of_mem inLane))
  refine ⟨first.text, ⟨List.mem_map_of_mem (mem_entries.2 ⟨lane, inLanes, entry⟩), ?_⟩, ?_⟩
  · rw [named]
    exact reaches_of_head consistent.selfKeyed inLanes entry inLane
  · rintro start ⟨begins, path⟩
    obtain ⟨other, listed, rfl⟩ := List.mem_map.1 begins
    obtain ⟨own, also, head⟩ := mem_entries.1 listed
    rcases (consistent.reaches_iff also head).1 path with inside | success
    · -- the other entry's lane holds the stage too, so it is the same lane with the same head
      rw [named, List.mem_map_of_injective StateId.text_injective] at inside
      cases lane_unique consistent.nodup_names also inLanes inside inLane
      rw [Option.some.inj (head.symm.trans entry)]
    · exact absurd success (consistent.sound.stage_id_ne member .success)

theorem keepsLanes : partition.KeepsLanes (partition.machine graph) := by
  constructor
  case entered => exact consistent.wired.filter_not_mem_targets (sublist_starts consistent.selfKeyed)
  case owned => exact fun stage member => consistent.existsUnique_start member
  case chains =>
    intro chain member first rest path id
    rw [consistent.reaches_iff (mem_lanes.2 (.inl ⟨chain, member, rfl⟩)) (by rw [path]; rfl), List.map_map]
    rfl
  case regions =>
    intro region member batches id
    refine consistent.reaches_iff (mem_lanes.2 (.inr ⟨region, member, rfl⟩)) ?_
    rw [region.head?_names, if_neg batches]

end Consistent

/-- A compiled machine is entered at the first step of each chain and the first batch of each region, and
every stage is reached from one of these entries, that of its own chain or region. -/
theorem keepsLanes_of_compile {machine : Machine} (reviewing : settings.reviewPartition = true)
    (compiled : partition.compile settings graph = .ok machine) : partition.KeepsLanes machine := by
  obtain ⟨consistent, rfl⟩ := consistent_of_compile reviewing compiled
  exact consistent.keepsLanes

def crowded : Partition where
  chains := [{ id := "c" }, { id := "c", path := ["a", "b"] }, { id := "c", path := ["c"] }]
  regions := [{ id := "r" }, { id := "r_batch_1", batches := [[], ["d"]] }]

theorem keepsLanes_crowded :
    ({} : Settings).reviewPartition = true ∧ ∃ machine, crowded.compile {} diamondGraph = .ok machine ∧
      crowded.KeepsLanes machine ∧ ¬ ReflTransGen machine.GoesOn "exec_a" "exec_c" := by
  have consistent : Consistent {} diamondGraph crowded := consistent_of_accepted (by decide +kernel)
  have lanes := keepsLanes_of_compile rfl consistent.compile
  refine ⟨rfl, _, consistent.compile, lanes, fun path => ?_⟩
  have inside := (lanes.chains { id := "c", path := ["a", "b"] } (by decide) "a" ["b"] rfl "exec_c").1 path
  exact absurd inside (by decide)

end Partition

end Orchestration
