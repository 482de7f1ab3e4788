import Mathlib.Data.List.Perm.Basic
import Orchestration.Proofs.Wiring

/-! Crossings into the states of a partition's machine. Starts and edges together cross into every
task and every batch start once, into a join once for each branch of its batch, and into success once
for each chain with steps and each region with batches. -/

set_option autoImplicit false

namespace Orchestration

def Chain.entry (chain : Chain) : List StateId :=
  (chain.path.take 1).map .task

def Region.entry (region : Region) : List StateId :=
  if region.batches = [] then [] else [.batchStart region.id 1]

def Partition.entries (partition : Partition) : List StateId :=
  partition.chains.flatMap Chain.entry ++ partition.regions.flatMap Region.entry

def Chain.crossings (chain : Chain) : List StateId :=
  chain.path.map .task ++ if chain.path = [] then [] else [StateId.final .success]

def Region.batchCrossings (region : Region) (batch : List String) (number : Nat) : List StateId :=
  .batchStart region.id number :: batch.map .task ++
    List.replicate (max 1 batch.length) (.batchJoin region.id number)

def Region.crossings (region : Region) : List StateId :=
  (region.numbered.flatMap fun numbered => region.batchCrossings numbered.1 numbered.2) ++
    if region.batches = [] then [] else [StateId.final .success]

/-- Every state as often as tokens enter it when nothing fails. -/
def Partition.crossings (partition : Partition) : List StateId :=
  partition.chains.flatMap Chain.crossings ++ partition.regions.flatMap Region.crossings

theorem Graph.continueTargets_serial (graph : Graph) (key : String) (rest : List String) :
    (graph.serial (key :: rest)).flatMap Stage.continueTargets =
      (rest.map StateId.task ++ [StateId.final .success]).map StateId.text := by
  induction rest generalizing key with
  | nil => rfl
  | cons next rest ih =>
    rw [serial, List.flatMap_cons, ih, Node.continueTargets_stage]
    rfl

theorem Chain.crossings_eq (graph : Graph) (chain : Chain) :
    chain.entry.map StateId.text ++ (graph.serial chain.path).flatMap Stage.continueTargets =
      chain.crossings.map StateId.text := by
  obtain ⟨id, path⟩ := chain
  cases path with
  | nil => rfl
  | cons key rest =>
    rw [graph.continueTargets_serial, ← List.map_append]
    rfl

namespace Region

variable (region : Region) (batch : List String) (number : Nat)

def next : StateId :=
  if number = region.batches.length then .final .success else .batchStart region.id (number + 1)

theorem follower_eq : region.follower number = (region.next number).text := by
  unfold follower next
  split <;> rfl

def inner : List StateId :=
  (if batch = [] then [.batchJoin region.id number] else batch.map .task) ++
    List.replicate batch.length (.batchJoin region.id number)

theorem batchCrossings_eq :
    region.batchCrossings batch number = .batchStart region.id number :: region.inner batch number := by
  cases batch with
  | nil => rfl
  | cons key rest =>
    have some : max 1 (key :: rest).length = (key :: rest).length := by simp
    rw [batchCrossings, inner, some, if_neg (List.cons_ne_nil key rest)]
    rfl

theorem continueTargets_batchStages (graph : Graph) :
    (region.batchStages graph batch number).flatMap Stage.continueTargets =
      (region.inner batch number ++ [region.next number]).map StateId.text := by
  have branches : (batch.map fun key =>
      (graph.nodeAt key).stage (StateId.batchJoin region.id number).text).flatMap Stage.continueTargets =
        (List.replicate batch.length (StateId.batchJoin region.id number)).map StateId.text := by
    rw [List.flatMap_map, List.map_replicate]
    simp [Node.continueTargets_stage, ← List.map_eq_flatMap]
  rw [batchStages, List.flatMap_append, List.flatMap_cons, branches, continueTargets_start,
    List.flatMap_singleton, continueTargets_join, follower_eq, inner]
  simp

theorem map_numbered (name : Nat → StateId) :
    (region.numbered.map fun numbered => name numbered.2) =
      (List.range' 1 region.batches.length).map name := by
  rw [← Partition.map_snd_numbered, List.map_map]
  rfl

theorem entry_append_next :
    region.entry ++ (region.numbered.map fun numbered => region.next numbered.2) =
      (region.numbered.map fun numbered => .batchStart region.id numbered.2) ++
        if region.batches = [] then [] else [.final .success] := by
  rw [map_numbered, map_numbered, entry]
  -- the follower of each batch but the last is the start of the next one
  cases count : region.batches.length with
  | zero => simp [List.length_eq_zero_iff.1 count]
  | succ last =>
    have some : region.batches ≠ [] := List.ne_nil_of_length_eq_add_one count
    have middle : (List.range' 1 last).map region.next =
        (List.range' 1 last).map fun number => .batchStart region.id (number + 1) := by
      apply List.map_congr_left
      intro number member
      have inside := (List.mem_range'_1.1 member).2
      rw [next, if_neg (by omega)]
    have final : region.next (1 + last) = .final .success := by
      rw [next, if_pos (by omega)]
    have followers : (List.range' 1 (last + 1)).map region.next =
        (List.range' 1 last).map (fun number => .batchStart region.id (number + 1)) ++ [.final .success] := by
      rw [List.range'_1_concat, List.map_append, middle, List.map_singleton, final]
    have starts : (List.range' 1 (last + 1)).map (StateId.batchStart region.id) =
        .batchStart region.id 1 :: (List.range' 1 last).map fun number => .batchStart region.id (number + 1) := by
      rw [List.range'_succ, List.range'_succ_left, List.map_cons, List.map_map]
      rfl
    rw [followers, starts, if_neg some, if_neg some]
    rfl

theorem perm_crossings (graph : Graph) :
    (region.entry.map StateId.text ++ (region.stages graph).flatMap Stage.continueTargets).Perm
      (region.crossings.map StateId.text) := by
  have targets : (region.stages graph).flatMap Stage.continueTargets =
      (region.numbered.flatMap fun numbered =>
        region.inner numbered.1 numbered.2 ++ [region.next numbered.2]).map StateId.text := by
    rw [stages, List.flatMap_assoc, List.map_flatMap]
    exact List.flatMap_congr fun numbered _ => continueTargets_batchStages region numbered.1 numbered.2 graph
  have starts : (region.numbered.flatMap fun numbered => region.batchCrossings numbered.1 numbered.2) =
      region.numbered.flatMap fun numbered =>
        [.batchStart region.id numbered.2] ++ region.inner numbered.1 numbered.2 :=
    List.flatMap_congr fun numbered _ => batchCrossings_eq region numbered.1 numbered.2
  have spread := List.flatMap_append_perm region.numbered
    (fun numbered => region.inner numbered.1 numbered.2) (fun numbered => [region.next numbered.2])
  have gather := List.flatMap_append_perm region.numbered
    (fun numbered => [.batchStart region.id numbered.2]) (fun numbered => region.inner numbered.1 numbered.2)
  rw [targets, ← List.map_append]
  -- the followers are spread over the batches on one side and stand behind them on the other
  refine List.Perm.map StateId.text (List.perm_iff_count.2 fun name => ?_)
  have inside := spread.count_eq name
  have outside := gather.count_eq name
  have ends := congrArg (List.count name) region.entry_append_next
  simp only [← List.map_eq_flatMap, List.count_append] at inside outside ends
  rw [crossings, starts, List.count_append, List.count_append]
  omega

end Region

theorem Partition.perm_crossings (graph : Graph) (partition : Partition) :
    (partition.entries.map StateId.text ++
      (partition.machine graph).stages.flatMap Stage.continueTargets).Perm
        (partition.crossings.map StateId.text) := by
  have chains := List.flatMap_append_perm partition.chains (fun chain => chain.entry.map StateId.text)
    (fun chain => (graph.serial chain.path).flatMap Stage.continueTargets)
  have regions := (List.flatMap_append_perm partition.regions (fun region => region.entry.map StateId.text)
    (fun region => (region.stages graph).flatMap Stage.continueTargets)).trans
      (List.Perm.flatMap_left partition.regions fun region _ => region.perm_crossings graph)
  simp only [Chain.crossings_eq] at chains
  apply List.perm_iff_count.2
  intro name
  have inChains := chains.count_eq name
  have inRegions := regions.count_eq name
  simp only [entries, stages_machine, stages, Partition.crossings, List.map_append, List.map_flatMap,
    List.flatMap_append, List.flatMap_assoc, List.count_append] at inChains inRegions ⊢
  omega

theorem count_flatMap_mul {α : Type} {name : StateId} {weight : Nat} {sources : List α}
    {some more : α → List StateId}
    (each : ∀ source ∈ sources, (more source).count name = weight * (some source).count name) :
    (sources.flatMap more).count name = weight * (sources.flatMap some).count name := by
  induction sources with
  | nil => rfl
  | cons first rest ih =>
    have tail := ih fun source member => each source (List.mem_cons_of_mem _ member)
    rw [List.flatMap_cons, List.flatMap_cons, List.count_append, List.count_append, tail, Nat.mul_add,
      each first List.mem_cons_self]

namespace Partition

variable {partition : Partition}

/-- Crossings are the names of a partition's states with a weight for the joins. -/
theorem count_crossings {name : StateId} {weight : Nat} (stays : ∀ ending, name ≠ .final ending)
    (steps : ∀ key, name = .task key → weight = 1)
    (batches : ∀ region ∈ partition.regions, ∀ numbered ∈ region.numbered,
      (region.batchCrossings numbered.1 numbered.2).count name =
        weight * (region.batchNames numbered.1 numbered.2).count name) :
    partition.crossings.count name = weight * partition.names.count name := by
  have endings : ∀ condition : Prop, ∀ _ : Decidable condition,
      (if condition then [] else [StateId.final .success]).count name = 0 := by
    intro condition _
    split
    · rfl
    · exact List.count_eq_zero.2 fun member => stays .success (List.mem_singleton.1 member)
  have finals : [StateId.final .success, .final .failure].count name = 0 :=
    List.count_eq_zero.2 fun member => by
      rcases List.mem_pair.1 member with same | same
      · exact stays .success same
      · exact stays .failure same
  have chains : (partition.chains.flatMap Chain.crossings).count name =
      weight * (partition.chains.flatMap fun chain => chain.path.map StateId.task).count name := by
    apply count_flatMap_mul
    intro chain _
    rw [Chain.crossings, List.count_append, endings, Nat.add_zero]
    by_cases task : name ∈ chain.path.map StateId.task
    · obtain ⟨key, _, named⟩ := List.mem_map.1 task
      rw [steps key named.symm, Nat.one_mul]
    · rw [List.count_eq_zero_of_not_mem task, Nat.mul_zero]
  have regions : (partition.regions.flatMap Region.crossings).count name =
      weight * (partition.regions.flatMap Region.names).count name := by
    apply count_flatMap_mul
    intro region member
    rw [Region.crossings, List.count_append, endings, Nat.add_zero]
    exact count_flatMap_mul (batches region member)
  rw [crossings, names, stageNames, List.count_append, List.count_append, List.count_append, chains, regions,
    finals, Nat.add_zero, Nat.mul_add]

theorem count_batchCrossings_of_ne {region : Region} {batch : List String} {number : Nat} {name : StateId}
    (other : name ≠ .batchJoin region.id number) :
    (region.batchCrossings batch number).count name = (region.batchNames batch number).count name := by
  have arrivals : (List.replicate (max 1 batch.length) (StateId.batchJoin region.id number)).count name = 0 :=
    List.count_eq_zero.2 fun member => other (List.eq_of_mem_replicate member)
  have join : [StateId.batchJoin region.id number].count name = 0 :=
    List.count_eq_zero.2 fun member => other (List.mem_singleton.1 member)
  rw [Region.batchCrossings, Region.batchNames, List.count_append, List.count_append, arrivals, join]

theorem count_batchCrossings_join (region : Region) (batch : List String) (number : Nat) :
    (region.batchCrossings batch number).count (.batchJoin region.id number) =
      max 1 batch.length * (region.batchNames batch number).count (.batchJoin region.id number) := by
  have branches : (batch.map StateId.task).count (.batchJoin region.id number) = 0 :=
    List.count_eq_zero.2 (by simp)
  simp [Region.batchCrossings, Region.batchNames, List.count_append, branches]

/-- Each task and each batch start is crossed into once for every time it is named. -/
theorem count_crossings_of_ne {name : StateId} (stays : ∀ ending, name ≠ .final ending)
    (other : ∀ region number, name ≠ .batchJoin region number) :
    partition.crossings.count name = partition.names.count name := by
  rw [← Nat.one_mul (partition.names.count name)]
  apply count_crossings stays (fun _ _ => rfl)
  intro region _ numbered _
  rw [Nat.one_mul]
  exact count_batchCrossings_of_ne (other region.id numbered.2)

theorem count_crossings_join {id : String} {number weight : Nat}
    (batches : ∀ region ∈ partition.regions, ∀ batch, (batch, number) ∈ region.numbered → region.id = id →
      max 1 batch.length = weight) :
    partition.crossings.count (.batchJoin id number) = weight * partition.names.count (.batchJoin id number) := by
  apply count_crossings (fun _ same => by cases same) (fun _ same => by cases same)
  intro region member numbered place
  by_cases same : StateId.batchJoin id number = .batchJoin region.id numbered.2
  · obtain ⟨rfl, rfl⟩ := StateId.batchJoin.inj same
    rw [count_batchCrossings_join, batches region member numbered.1 place rfl]
  · have none : (region.batchNames numbered.1 numbered.2).count (.batchJoin id number) = 0 :=
      List.count_eq_zero.2 (by simpa [Region.batchNames] using same)
    rw [count_batchCrossings_of_ne same, none, Nat.mul_zero]

theorem count_crossings_success (partition : Partition) :
    partition.crossings.count (.final .success) = partition.entries.length := by
  have chains : ∀ chain : Chain, chain.crossings.count (.final .success) = chain.entry.length := by
    intro chain
    have steps : (chain.path.map StateId.task).count (.final .success) = 0 := List.count_eq_zero.2 (by simp)
    rw [Chain.crossings, Chain.entry, List.count_append, steps]
    cases chain.path <;> simp
  have regions : ∀ region : Region, region.crossings.count (.final .success) = region.entry.length := by
    intro region
    have batches : (region.numbered.flatMap fun numbered =>
        region.batchCrossings numbered.1 numbered.2).count (.final .success) = 0 :=
      List.count_eq_zero.2 (by simp [Region.batchCrossings])
    rw [Region.crossings, Region.entry, List.count_append, batches]
    split <;> simp
  rw [crossings, entries, List.count_append, List.length_append, List.count_flatMap, List.count_flatMap,
    List.length_flatMap, List.length_flatMap]
  simp only [Function.comp_def, chains, regions]

end Partition

end Orchestration
