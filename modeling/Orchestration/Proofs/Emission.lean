import Mathlib.Data.List.Nodup
import Orchestration.Compile
import Orchestration.Proofs.StateId

/-! The machine of a partition, state by state. A draft without gaps has a known form, and its
states are named by a list of state ids that can be read off the partition alone. -/

set_option autoImplicit false

namespace Orchestration

variable {graph : Graph} {partition : Partition}

/-- The node under a key; where the graph has none, a node with nothing but that id. -/
def Graph.nodeAt (graph : Graph) (key : String) : Node :=
  (graph.find? key).getD { id := key }

theorem Graph.find?_eq_some_nodeAt {key : String} (known : graph.contains key = true) :
    graph.find? key = some (graph.nodeAt key) := by
  obtain ⟨node, found⟩ := contains_iff.1 known
  rw [nodeAt, found, Option.getD_some]

theorem Graph.SelfKeyed.id_nodeAt (selfKeyed : graph.SelfKeyed) (key : String) :
    (graph.nodeAt key).id = key := by
  unfold nodeAt
  cases found : graph.find? key with
  | none => rfl
  | some node => exact selfKeyed key node found

theorem Graph.SelfKeyed.id_stage (selfKeyed : graph.SelfKeyed) (key next : String) :
    ((graph.nodeAt key).stage next).id = (StateId.task key).text := by
  rw [Node.stage, selfKeyed.id_nodeAt]

def following : List String → String
  | [] => Ending.success.id
  | key :: _ => (StateId.task key).text

def Graph.serial (graph : Graph) : List String → List Stage
  | [] => []
  | key :: rest => (graph.nodeAt key).stage (following rest) :: graph.serial rest

def Region.batchStages (graph : Graph) (region : Region) (batch : List String) (number : Nat) :
    List Stage :=
  region.start batch number ::
    batch.map (fun key => (graph.nodeAt key).stage (StateId.batchJoin region.id number).text) ++
    [region.join number]

def Region.stages (graph : Graph) (region : Region) : List Stage :=
  region.numbered.flatMap fun (batch, number) => region.batchStages graph batch number

def Partition.stages (graph : Graph) (partition : Partition) : List Stage :=
  partition.chains.flatMap (fun chain => graph.serial chain.path) ++
    partition.regions.flatMap (Region.stages graph)

/-- The machine of a partition all of whose listings name nodes. -/
def Partition.machine (graph : Graph) (partition : Partition) : Machine where
  states := (partition.stages graph).map .stage ++
    [.final Ending.success.id, .final Ending.failure.id]

theorem Listing.slot_of_contains {entry : Entry} {key : String} (next : String)
    (known : graph.contains key = true) :
    (Listing.mk entry key).slot graph next = .ok (.stage ((graph.nodeAt key).stage next)) := by
  simp only [slot, Graph.find?_eq_some_nodeAt known]

theorem Chain.draft_eq {chain : Chain} (known : ∀ key ∈ chain.path, graph.contains key = true) :
    chain.draft graph = (graph.serial chain.path).map fun stage => .ok (.stage stage) := by
  obtain ⟨id, path⟩ := chain
  simp only [draft, listings, followers]
  -- slots pair each step with its follower, so the tail of the path is one step ahead
  induction path with
  | nil => rfl
  | cons key rest ih =>
    have first := known key List.mem_cons_self
    have slots := ih fun other member => known other (List.mem_cons_of_mem key member)
    cases rest with
    | nil => simp [Graph.serial, following, Listing.slot_of_contains _ first]
    | cons next rest =>
      conv_rhs => rw [Graph.serial, List.map_cons, ← slots]
      simp only [List.map_cons, List.tail_cons, List.cons_append, List.zipWith_cons_cons, following,
        Listing.slot_of_contains _ first]

theorem Region.batchDraft_eq {region : Region} {batch : List String} {number : Nat}
    (known : ∀ key ∈ batch, graph.contains key = true) :
    region.batchDraft graph batch number =
      (region.batchStages graph batch number).map fun stage => .ok (.stage stage) := by
  have slots : batch.map (fun key => (Listing.mk ⟨.region, region.id⟩ key).slot graph
        (StateId.batchJoin region.id number).text) =
      batch.map fun key => (.ok (.stage ((graph.nodeAt key).stage
        (StateId.batchJoin region.id number).text)) : Slot) :=
    List.map_congr_left fun key member => Listing.slot_of_contains _ (known key member)
  rw [batchDraft, slots]
  simp [batchStages]

theorem Region.draft_eq {region : Region} (known : ∀ key ∈ region.batches.flatten, graph.contains key = true) :
    region.draft graph = (region.stages graph).map fun stage => .ok (.stage stage) := by
  rw [draft, stages, List.map_flatMap]
  apply List.flatMap_congr
  intro numbered member
  obtain ⟨batch, number⟩ := numbered
  have listed : batch ∈ region.batches := List.fst_mem_of_mem_zipIdx member
  exact batchDraft_eq fun key inBatch => known key (List.mem_flatten.2 ⟨batch, listed, inBatch⟩)

theorem Partition.mem_listed {key : String} :
    key ∈ partition.listed ↔ (∃ chain ∈ partition.chains, key ∈ chain.path) ∨
      ∃ region ∈ partition.regions, ∃ batch ∈ region.batches, key ∈ batch := by
  simp only [listed_eq, List.mem_append, List.mem_flatMap, List.mem_flatten]

theorem Partition.draft_eq (known : ∀ key ∈ partition.listed, graph.contains key = true) :
    partition.draft graph = (partition.machine graph).states.map .ok := by
  have chains : partition.chains.flatMap (Chain.draft graph) = partition.chains.flatMap fun chain =>
      (graph.serial chain.path).map fun stage => (.ok (.stage stage) : Slot) :=
    List.flatMap_congr fun chain member => Chain.draft_eq fun key step =>
      known key (mem_listed.2 (.inl ⟨chain, member, step⟩))
  have regions : partition.regions.flatMap (Region.draft graph) = partition.regions.flatMap fun region =>
      (region.stages graph).map fun stage => (.ok (.stage stage) : Slot) :=
    List.flatMap_congr fun region member => Region.draft_eq fun key inBatches => by
      obtain ⟨batch, listed, inBatch⟩ := List.mem_flatten.1 inBatches
      exact known key (mem_listed.2 (.inr ⟨region, member, batch, listed, inBatch⟩))
  simp [draft, chains, regions, machine, stages, List.map_flatMap, Function.comp_def]

theorem Partition.emit_eq_ok (known : ∀ key ∈ partition.listed, graph.contains key = true)
    (distinct : (partition.machine graph).ids.Nodup) :
    partition.emit graph = .ok (partition.machine graph) := by
  have settled : settle [] (partition.draft graph) = .ok (partition.machine graph).states :=
    settle_eq_ok_iff.2 ⟨draft_eq known, distinct, fun _ _ => List.not_mem_nil⟩
  rw [emit, settled]
  rfl

/-- Every step of a chain has a follower. -/
theorem Chain.map_fst_zip (chain : Chain) :
    (chain.listings.zip chain.followers).map Prod.fst = chain.listings := by
  apply List.map_fst_zip
  simp only [listings, followers, List.length_map, List.length_append, List.length_tail, List.length_singleton]
  omega

theorem Chain.exists_slot {chain : Chain} {listing : Listing} (member : listing ∈ chain.listings) :
    ∃ next, listing.slot graph next ∈ chain.draft graph := by
  rw [← chain.map_fst_zip] at member
  obtain ⟨⟨_, next⟩, paired, rfl⟩ := List.mem_map.1 member
  refine ⟨next, ?_⟩
  rw [draft, ← List.map_uncurry_zip_eq_zipWith]
  exact List.mem_map_of_mem paired

theorem Region.exists_slot {region : Region} {key : String} (member : key ∈ region.batches.flatten) :
    ∃ next, (Listing.mk ⟨.region, region.id⟩ key).slot graph next ∈ region.draft graph := by
  obtain ⟨batch, listed, inBatch⟩ := List.mem_flatten.1 member
  obtain ⟨index, found⟩ := List.mem_iff_getElem?.1 listed
  have place : (batch, index + 1) ∈ region.numbered :=
    List.mk_mem_zipIdx_iff_le_and_getElem?_sub.2 ⟨by omega, found⟩
  refine ⟨(StateId.batchJoin region.id (index + 1)).text, List.mem_flatMap.2 ⟨_, place, ?_⟩⟩
  exact List.mem_append_left _ (List.mem_cons_of_mem _ (List.mem_map_of_mem inBatch))

theorem Listing.contains_of_slot {listing : Listing} {next : String} {state : State}
    (filled : listing.slot graph next = .ok state) : graph.contains listing.node = true := by
  unfold slot at filled
  split at filled
  next node found => exact Graph.contains_iff.2 ⟨node, found⟩
  next => cases filled

/-- A draft without gaps lists nodes of the graph only. -/
theorem Partition.contains_of_draft_eq {states : List State} (drafted : partition.draft graph = states.map .ok)
    {key : String} (member : key ∈ partition.listed) : graph.contains key = true := by
  have filled : ∀ slot ∈ partition.draft graph, ∃ state, slot = .ok state := by
    intro slot inDraft
    rw [drafted] at inDraft
    obtain ⟨state, _, rfl⟩ := List.mem_map.1 inDraft
    exact ⟨state, rfl⟩
  rcases mem_listed.1 member with ⟨chain, inChains, step⟩ | ⟨region, inRegions, batch, listed, inBatch⟩
  · have listing : Listing.mk ⟨.chain, chain.id⟩ key ∈ chain.listings := List.mem_map_of_mem step
    obtain ⟨next, slot⟩ := Chain.exists_slot listing
    obtain ⟨state, made⟩ := filled _ <| List.mem_append_left _ <| List.mem_append_left _ <|
      List.mem_flatMap.2 ⟨chain, inChains, slot⟩
    exact Listing.contains_of_slot made
  · obtain ⟨next, slot⟩ := Region.exists_slot (List.mem_flatten.2 ⟨batch, listed, inBatch⟩)
    obtain ⟨state, made⟩ := filled _ <| List.mem_append_left _ <| List.mem_append_right _ <|
      List.mem_flatMap.2 ⟨region, inRegions, slot⟩
    exact Listing.contains_of_slot made

/-- A draft gives a machine when every listing names a node and the ids of its states are distinct. -/
theorem Partition.emit_eq_ok_iff_nodup_ids {machine : Machine} :
    partition.emit graph = .ok machine ↔ (∀ key ∈ partition.listed, graph.contains key = true) ∧
      (partition.machine graph).ids.Nodup ∧ machine = partition.machine graph := by
  constructor
  · intro emitted
    cases settled : settle [] (partition.draft graph) with
    | error error => simp [emit, settled, Except.map] at emitted
    | ok states =>
      obtain ⟨drafted, distinct, _⟩ := settle_eq_ok_iff.1 settled
      have known : ∀ key ∈ partition.listed, graph.contains key = true :=
        fun key member => contains_of_draft_eq drafted member
      obtain rfl : states = (partition.machine graph).states :=
        List.map_injective_iff.2 (fun _ _ => Except.ok.inj) (drafted.symm.trans (draft_eq known))
      obtain rfl : partition.machine graph = machine := by simpa [emit, settled, Except.map] using emitted
      exact ⟨known, distinct, rfl⟩
  · rintro ⟨known, distinct, rfl⟩
    exact emit_eq_ok known distinct

theorem Machine.vet_eq_ok_iff {machine vetted : Machine} :
    machine.vet = .ok vetted ↔ machine = vetted ∧ machine.audit.hasErrors = false := by
  cases verdict : machine.audit.hasErrors <;> simp [Machine.vet, verdict]

/-- A partition is compiled if it passes a review that was asked for, and the machine emitted for it an audit. -/
theorem Partition.compile_eq_ok_iff {settings : Settings} {machine : Machine} :
    partition.compile settings graph = .ok machine ↔
      (settings.reviewPartition = true → (partition.review settings graph).hasErrors = false) ∧
        partition.emit graph = .ok machine ∧
          (settings.auditMachine = true → machine.audit.hasErrors = false) := by
  have produced : partition.produce settings graph = .ok machine ↔ partition.emit graph = .ok machine ∧
      (settings.auditMachine = true → machine.audit.hasErrors = false) := by
    rw [produce]
    cases partition.emit graph with
    | error error => simp
    | ok made =>
      cases settings.auditMachine with
      | false => simp
      | true =>
        simp only [if_true, Machine.vet_eq_ok_iff, Except.ok.injEq, true_imp_iff]
        exact and_congr_right fun same => by rw [same]
  rw [compile, ← produced]
  cases settings.reviewPartition <;> cases (partition.review settings graph).hasErrors <;> simp

theorem Partition.emit_of_compile {settings : Settings} {machine : Machine}
    (compiled : partition.compile settings graph = .ok machine) :
    partition.emit graph = .ok machine ∧
      (settings.auditMachine = true → machine.audit.hasErrors = false) :=
  (compile_eq_ok_iff.1 compiled).2

theorem Partition.eq_machine_of_compile {settings : Settings} {machine : Machine}
    (compiled : partition.compile settings graph = .ok machine) : machine = partition.machine graph :=
  (emit_eq_ok_iff_nodup_ids.1 (emit_of_compile compiled).1).2.2

def Region.batchNames (region : Region) (batch : List String) (number : Nat) : List StateId :=
  .batchStart region.id number :: batch.map .task ++ [.batchJoin region.id number]

def Region.names (region : Region) : List StateId :=
  region.numbered.flatMap fun (batch, number) => region.batchNames batch number

def Partition.stageNames (partition : Partition) : List StateId :=
  partition.chains.flatMap (fun chain => chain.path.map .task) ++ partition.regions.flatMap Region.names

def Partition.names (partition : Partition) : List StateId :=
  partition.stageNames ++ [.final .success, .final .failure]

theorem Graph.SelfKeyed.map_id_serial (selfKeyed : graph.SelfKeyed) (path : List String) :
    (graph.serial path).map Stage.id = path.map fun key => (StateId.task key).text := by
  induction path with
  | nil => rfl
  | cons key rest ih =>
    rw [Graph.serial, List.map_cons, List.map_cons, ih, selfKeyed.id_stage]

theorem Graph.SelfKeyed.map_id_batchStages (selfKeyed : graph.SelfKeyed) (region : Region)
    (batch : List String) (number : Nat) :
    (region.batchStages graph batch number).map Stage.id =
      (region.batchNames batch number).map StateId.text := by
  simp [Region.batchStages, Region.batchNames, Region.start, Region.join, selfKeyed.id_stage]

theorem Graph.SelfKeyed.map_id_stages (selfKeyed : graph.SelfKeyed) (partition : Partition) :
    (partition.stages graph).map Stage.id = partition.stageNames.map StateId.text := by
  simp only [Partition.stages, Partition.stageNames, Region.stages, Region.names, List.map_append,
    List.map_flatMap, selfKeyed.map_id_serial, selfKeyed.map_id_batchStages, List.map_map]
  rfl

theorem Graph.SelfKeyed.ids_machine (selfKeyed : graph.SelfKeyed) (partition : Partition) :
    (partition.machine graph).ids = partition.names.map StateId.text := by
  rw [Partition.names, List.map_append, ← selfKeyed.map_id_stages, Machine.ids, Partition.machine,
    List.map_append, List.map_map]
  rfl

namespace StateId

def task? : StateId → Option String
  | task node => some node
  | _ => none

def batchStart? : StateId → Option (String × Nat)
  | batchStart region number => some (region, number)
  | _ => none

def batchJoin? : StateId → Option (String × Nat)
  | batchJoin region number => some (region, number)
  | _ => none

def final? : StateId → Option Ending
  | final ending => some ending
  | _ => none

theorem nodup_iff {ids : List StateId} :
    ids.Nodup ↔ (ids.filterMap task?).Nodup ∧ (ids.filterMap batchStart?).Nodup ∧
      (ids.filterMap batchJoin?).Nodup ∧ (ids.filterMap final?).Nodup := by
  -- ids of different kinds differ anyway, so each pair is decided by one of the four lists
  simp only [List.Nodup, List.pairwise_filterMap, ← List.pairwise_and_iff]
  apply List.Pairwise.iff
  intro first second
  cases first <;> cases second <;> simp [task?, batchStart?, batchJoin?, final?]

end StateId

theorem Region.flatMap_numbered (region : Region) :
    (region.numbered.flatMap fun numbered => numbered.1) = region.batches.flatten := by
  conv_rhs => rw [← List.zipIdx_map_fst 1 region.batches, ← List.flatMap_def]
  rfl

theorem Region.filterMap_batchNames {α : Type} (region : Region) (batch : List String) (number : Nat)
    (kind? : StateId → Option α) :
    (region.batchNames batch number).filterMap kind? =
      (kind? (.batchStart region.id number)).toList ++ batch.filterMap (kind? ∘ .task) ++
        (kind? (.batchJoin region.id number)).toList := by
  cases first : kind? (.batchStart region.id number) <;>
    cases last : kind? (.batchJoin region.id number) <;> simp [batchNames, first, last]

namespace Partition

def places (partition : Partition) : List (String × Nat) :=
  partition.regions.flatMap fun region => region.numbered.map fun (_, number) => (region.id, number)

theorem filterMap_names {α : Type} (partition : Partition) (kind? : StateId → Option α) :
    partition.names.filterMap kind? =
      partition.chains.flatMap (fun chain => chain.path.filterMap (kind? ∘ StateId.task)) ++
        (partition.regions.flatMap fun region => region.numbered.flatMap fun (batch, number) =>
          (kind? (.batchStart region.id number)).toList ++ batch.filterMap (kind? ∘ .task) ++
            (kind? (.batchJoin region.id number)).toList) ++
        [StateId.final .success, .final .failure].filterMap kind? := by
  simp only [names, stageNames, Region.names, List.filterMap_append, List.filterMap_flatMap,
    List.filterMap_map, Region.filterMap_batchNames]

theorem filterMap_task?_names (partition : Partition) :
    partition.names.filterMap StateId.task? = partition.listed := by
  have tasks : StateId.task? ∘ StateId.task = some := rfl
  simp [filterMap_names, Region.flatMap_numbered, listed_eq, tasks, StateId.task?]

theorem filterMap_names_eq_places {kind? : StateId → Option (String × Nat)}
    (tasks : kind? ∘ StateId.task = fun _ => none) (finals : ∀ ending, kind? (.final ending) = none)
    (one : ∀ region number, (kind? (.batchStart region number)).toList ++
      (kind? (.batchJoin region number)).toList = [(region, number)]) (partition : Partition) :
    partition.names.filterMap kind? = partition.places := by
  have silent : ∀ keys : List String, keys.filterMap (kind? ∘ StateId.task) = [] := by
    intro keys
    rw [tasks, List.filterMap_none]
  have endings : [StateId.final .success, .final .failure].filterMap kind? = [] := by
    simp [finals]
  rw [filterMap_names, endings, List.append_nil, List.flatMap_eq_nil_iff.2 fun chain _ => silent chain.path]
  apply List.flatMap_congr
  intro region _
  rw [List.map_eq_flatMap]
  apply List.flatMap_congr
  intro numbered _
  simp only [silent, List.append_nil]
  exact one region.id numbered.2

theorem filterMap_final?_names (partition : Partition) :
    partition.names.filterMap StateId.final? = [.success, .failure] := by
  have stages : partition.stageNames.filterMap StateId.final? = [] := by
    apply List.filterMap_eq_nil_iff.2
    intro name member
    rcases List.mem_append.1 member with inChains | inRegions
    · obtain ⟨chain, _, step⟩ := List.mem_flatMap.1 inChains
      obtain ⟨key, _, rfl⟩ := List.mem_map.1 step
      rfl
    · obtain ⟨region, _, inRegion⟩ := List.mem_flatMap.1 inRegions
      simp only [Region.names, Region.batchNames, List.mem_flatMap, List.mem_append, List.mem_cons,
        List.mem_map, List.not_mem_nil, or_false] at inRegion
      obtain ⟨_, _, (rfl | ⟨key, _, rfl⟩) | rfl⟩ := inRegion <;> rfl
  rw [names, List.filterMap_append, stages]
  rfl

theorem mem_numbered {region : Region} {batch : List String} {number : Nat} :
    (batch, number) ∈ region.numbered ↔ 1 ≤ number ∧ region.batches[number - 1]? = some batch :=
  List.mk_mem_zipIdx_iff_le_and_getElem?_sub

theorem map_snd_numbered (region : Region) :
    region.numbered.map Prod.snd = List.range' 1 region.batches.length :=
  List.zipIdx_map_snd 1 region.batches

theorem nodup_places_iff (partition : Partition) :
    partition.places.Nodup ↔
      ((partition.regions.filter (·.batches ≠ [])).map Region.id).Nodup := by
  have numbers : ∀ region : Region, (region.numbered.map fun (_, number) => (region.id, number)) =
      (List.range' 1 region.batches.length).map (region.id, ·) := by
    intro region
    rw [← map_snd_numbered, List.map_map]
    rfl
  have first : ∀ region : Region, region.batches ≠ [] → 1 ∈ List.range' 1 region.batches.length := by
    intro region batches
    have positive := List.length_pos_iff.2 batches
    rw [List.mem_range'_1]
    omega
  have each : ∀ region ∈ partition.regions,
      ((List.range' 1 region.batches.length).map (region.id, ·)).Nodup := fun region _ =>
    List.Nodup.map (fun _ _ same => (Prod.mk.inj same).2) List.nodup_range'
  have ids : ((partition.regions.filter (·.batches ≠ [])).map Region.id).Nodup ↔
      partition.regions.Pairwise fun left right =>
        left.batches ≠ [] → right.batches ≠ [] → left.id ≠ right.id := by
    rw [List.Nodup, List.pairwise_map, List.pairwise_filter]
    simp only [decide_eq_true_eq]
  rw [ids, places]
  simp only [numbers]
  -- regions with batches all have a batch 1, so two of them with one id share a place
  rw [List.nodup_flatMap, and_iff_right each]
  apply List.Pairwise.iff
  intro left right
  constructor
  · intro apart leftBatches rightBatches same
    exact apart (List.mem_map.2 ⟨1, first left leftBatches, rfl⟩)
      (List.mem_map.2 ⟨1, first right rightBatches, by rw [same]⟩)
  · intro apart place inLeft inRight
    obtain ⟨number, inLeft, rfl⟩ := List.mem_map.1 inLeft
    obtain ⟨other, inRight, same⟩ := List.mem_map.1 inRight
    refine apart ?_ ?_ (Prod.mk.inj same).1.symm
    · intro empty
      simp [empty] at inLeft
    · intro empty
      simp [empty] at inRight

/-- A partition names its states apart when it lists no node twice and no two regions with
batches share an id. -/
theorem nodup_names_iff (partition : Partition) :
    partition.names.Nodup ↔ partition.listed.Nodup ∧
      ((partition.regions.filter (·.batches ≠ [])).map Region.id).Nodup := by
  rw [StateId.nodup_iff, filterMap_task?_names, filterMap_final?_names,
    filterMap_names_eq_places rfl (fun _ => rfl) fun _ _ => rfl,
    filterMap_names_eq_places rfl (fun _ => rfl) fun _ _ => rfl, nodup_places_iff]
  simp

end Partition

end Orchestration
