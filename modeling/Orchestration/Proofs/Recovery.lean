import Mathlib.Data.List.SplitBy
import Orchestration.Proofs.Offences

/-! What a machine keeps of its partition. Cut behind the stages that lead to success, it falls into
the chains and the regions that have stages at all; cut behind its joins, a region falls into batches. -/

set_option autoImplicit false

namespace Orchestration

section

variable {α : Type} {ends : α → Bool} {front rest block : List α}

/-- A list whose last element passes a test that no other element passes. -/
inductive EndsAt (ends : α → Bool) : List α → Prop where
  | last {x : α} (passes : ends x = true) : EndsAt ends [x]
  | cons {x : α} {rest : List α} (fails : ends x = false) (onward : EndsAt ends rest) :
      EndsAt ends (x :: rest)

/-- The pieces of a list that is cut behind every element that passes a test. -/
def cutAfter (ends : α → Bool) (xs : List α) : List (List α) :=
  xs.splitBy fun x _ => !ends x

namespace EndsAt

theorem append (fails : ∀ x ∈ front, ends x = false) (onward : EndsAt ends rest) :
    EndsAt ends (front ++ rest) := by
  induction front with
  | nil => exact onward
  | cons x front ih =>
    exact .cons (fails x List.mem_cons_self) (ih fun y member => fails y (List.mem_cons_of_mem x member))

theorem ne_nil (block : EndsAt ends rest) : rest ≠ [] := by
  cases block <;> exact List.cons_ne_nil _ _

theorem isChain (ending : EndsAt ends block) : block.IsChain fun x _ => (!ends x) = true := by
  induction ending with
  | last => exact .singleton _
  | cons fails _ ih =>
    refine List.isChain_cons.2 ⟨fun _ _ => ?_, ih⟩
    rw [fails]
    rfl

theorem getLast (ending : EndsAt ends block) : ends (block.getLast ending.ne_nil) = true := by
  induction ending with
  | last passes => exact passes
  | cons _ onward ih => rwa [List.getLast_cons onward.ne_nil]

end EndsAt

theorem cutAfter_flatten {blocks : List (List α)} (each : ∀ block ∈ blocks, EndsAt ends block) :
    cutAfter ends blocks.flatten = blocks := by
  have cuts : blocks.Pairwise fun left right =>
      ∃ (some : left ≠ []) (more : right ≠ []), (!ends (left.getLast some)) = false := by
    refine List.pairwise_of_forall_mem_list fun left before right after => ?_
    refine ⟨(each left before).ne_nil, (each right after).ne_nil, ?_⟩
    rw [(each left before).getLast]
    rfl
  exact List.splitBy_flatten (fun empty => (each [] empty).ne_nil rfl)
    (fun block member => (each block member).isChain) cuts.isChain

theorem flatMap_eq_flatten_filter {β : Type} {parts : α → List β} {kept : α → Bool}
    (silent : ∀ x, kept x = false → parts x = []) (xs : List α) :
    xs.flatMap parts = ((xs.filter kept).map parts).flatten := by
  induction xs with
  | nil => rfl
  | cons x xs ih =>
    cases keeps : kept x with
    | true => rw [List.filter_cons_of_pos keeps, List.flatMap_cons, List.map_cons, List.flatten_cons, ih]
    | false =>
      rw [List.filter_cons_of_neg (by simp [keeps]), List.flatMap_cons, silent x keeps, List.nil_append, ih]

end

def Stage.leadsToSuccess (stage : Stage) : Bool :=
  Ending.success.id ∈ stage.continueTargets

/-- The stages of a machine, cut into pieces that each end by leading to success. -/
def Machine.strands (machine : Machine) : List (List Stage) :=
  cutAfter Stage.leadsToSuccess machine.stages

def opensRegion (strand : List Stage) : Bool :=
  strand.head?.any (·.role = .batchStart)

def Machine.paths (machine : Machine) : List (List String) :=
  (machine.strands.filter (!opensRegion ·)).map (·.map Stage.node)

def batchNodes (stages : List Stage) : List String :=
  (stages.filter (·.role = .task)).map Stage.node

def Machine.batchings (machine : Machine) : List (Option String × List (List String)) :=
  (machine.strands.filter opensRegion).map fun strand =>
    (strand.head?.map Stage.id, (cutAfter (·.role = .batchJoin) strand).map batchNodes)

variable {graph : Graph} {partition : Partition} {settings : Settings}

theorem leadsToSuccess_iff {stage : Stage} :
    stage.leadsToSuccess = true ↔ (StateId.final .success).text ∈ stage.continueTargets :=
  decide_eq_true_iff

theorem leadsToSuccess_stage (node : Node) (name : StateId) :
    (node.stage name.text).leadsToSuccess = true ↔ name = .final .success := by
  rw [leadsToSuccess_iff, Node.continueTargets_stage, List.mem_singleton, StateId.text_injective.eq_iff,
    eq_comm]

theorem leadsToSuccess_start (region : Region) (batch : List String) (number : Nat) :
    (region.start batch number).leadsToSuccess = false := by
  rw [← Bool.not_eq_true, leadsToSuccess_iff, Region.continueTargets_start,
    List.mem_map_of_injective StateId.text_injective]
  split <;> simp

theorem leadsToSuccess_join (region : Region) (number : Nat) :
    (region.join number).leadsToSuccess = true ↔ number = region.batches.length := by
  rw [leadsToSuccess_iff, Region.continueTargets_join, List.mem_singleton, Region.follower]
  split
  next last => exact iff_of_true rfl last
  next more =>
    refine iff_of_false (fun same => ?_) more
    cases StateId.text_injective same

theorem Graph.endsAt_serial {path : List String} (steps : path ≠ []) :
    EndsAt Stage.leadsToSuccess (graph.serial path) := by
  induction path with
  | nil => exact absurd rfl steps
  | cons key rest ih =>
    cases rest with
    | nil => exact .last ((leadsToSuccess_stage _ (.final .success)).2 rfl)
    | cons next rest =>
      refine .cons ?_ (ih (List.cons_ne_nil next rest))
      rw [← Bool.not_eq_true, following, leadsToSuccess_stage]
      exact StateId.noConfusion

namespace Region

variable {region : Region} {batch : List String} {number : Nat} {stage : Stage}

theorem endsAt_batchStages (graph : Graph) (region : Region) (batch : List String) (number : Nat) :
    EndsAt (·.role = .batchJoin) (region.batchStages graph batch number) := by
  refine .append (fun stage member => ?_) (.last rfl)
  rcases List.mem_cons.1 member with rfl | branch
  · rfl
  · obtain ⟨key, _, rfl⟩ := List.mem_map.1 branch
    rfl

theorem leadsToSuccess_before_join
    (member : stage ∈ region.start batch number ::
      batch.map fun key => (graph.nodeAt key).stage (StateId.batchJoin region.id number).text) :
    stage.leadsToSuccess = false := by
  rcases List.mem_cons.1 member with rfl | branch
  · exact leadsToSuccess_start region batch number
  · obtain ⟨key, _, rfl⟩ := List.mem_map.1 branch
    rw [← Bool.not_eq_true, leadsToSuccess_stage]
    exact StateId.noConfusion

theorem endsAt_stages (batches : region.batches ≠ []) :
    EndsAt Stage.leadsToSuccess (region.stages graph) := by
  obtain ⟨front, last, whole⟩ := (List.eq_nil_or_concat' region.batches).resolve_left batches
  have count : region.batches.length = front.length + 1 := by
    rw [whole, List.length_append]
    rfl
  have numbers : region.numbered = front.zipIdx 1 ++ [(last, region.batches.length)] := by
    rw [numbered, count, whole, List.zipIdx_append, Nat.add_comm]
    rfl
  simp only [stages, numbers, List.flatMap_append, List.flatMap_singleton, batchStages, ← List.append_assoc]
  refine .append (fun stage member => ?_) (.last ((leadsToSuccess_join _ _).2 rfl))
  rcases List.mem_append.1 member with inFront | inLast
  · obtain ⟨numbered, place, inBatch⟩ := List.mem_flatMap.1 inFront
    rcases List.mem_append.1 inBatch with before | joins
    · exact leadsToSuccess_before_join before
    · have below := List.snd_lt_of_mem_zipIdx place
      rw [List.mem_singleton.1 joins, ← Bool.not_eq_true, leadsToSuccess_join]
      omega
  · exact leadsToSuccess_before_join inLast

end Region

namespace Partition

theorem strands_machine (graph : Graph) (partition : Partition) :
    (partition.machine graph).strands =
      ((partition.chains.map Chain.path).filter (· ≠ [])).map graph.serial ++
        (partition.regions.filter (·.batches ≠ [])).map (Region.stages graph) := by
  have chains : partition.chains.flatMap (fun chain => graph.serial chain.path) =
      (((partition.chains.map Chain.path).filter (· ≠ [])).map graph.serial).flatten := by
    rw [← List.flatMap_map Chain.path graph.serial]
    refine flatMap_eq_flatten_filter (fun path empty => ?_) _
    rw [decide_eq_false_iff_not, not_not] at empty
    rw [empty]
    rfl
  have regions : partition.regions.flatMap (Region.stages graph) =
      ((partition.regions.filter (·.batches ≠ [])).map (Region.stages graph)).flatten := by
    refine flatMap_eq_flatten_filter (fun region empty => ?_) _
    rw [decide_eq_false_iff_not, not_not] at empty
    rw [Region.stages, Region.numbered, empty]
    rfl
  rw [Machine.strands, stages_machine, stages, chains, regions, ← List.flatten_append]
  refine cutAfter_flatten fun strand member => ?_
  rcases List.mem_append.1 member with inChains | inRegions
  · obtain ⟨path, listed, rfl⟩ := List.mem_map.1 inChains
    exact Graph.endsAt_serial (of_decide_eq_true (List.mem_filter.1 listed).2)
  · obtain ⟨region, listed, rfl⟩ := List.mem_map.1 inRegions
    exact Region.endsAt_stages (of_decide_eq_true (List.mem_filter.1 listed).2)

theorem opensRegion_serial {path : List String} : opensRegion (graph.serial path) = false := by
  cases path <;> rfl

theorem head?_stages (graph : Graph) {region : Region} (batches : region.batches ≠ []) :
    ∃ batch, (region.stages graph).head? = some (region.start batch 1) := by
  obtain ⟨batch, rest, whole⟩ := List.exists_cons_of_ne_nil batches
  exact ⟨batch, by rw [Region.stages, Region.numbered, whole]; rfl⟩

theorem opensRegion_stages {region : Region} (batches : region.batches ≠ []) :
    opensRegion (region.stages graph) = true := by
  obtain ⟨batch, first⟩ := head?_stages graph batches
  rw [opensRegion, first]
  rfl

theorem opensRegion_of_mem {strand : List Stage}
    (member : strand ∈ (partition.regions.filter (·.batches ≠ [])).map (Region.stages graph)) :
    opensRegion strand = true := by
  obtain ⟨region, listed, rfl⟩ := List.mem_map.1 member
  exact opensRegion_stages (of_decide_eq_true (List.mem_filter.1 listed).2)

theorem chainStrands_machine (graph : Graph) (partition : Partition) :
    (partition.machine graph).strands.filter (!opensRegion ·) =
      ((partition.chains.map Chain.path).filter (· ≠ [])).map graph.serial := by
  have chains : ∀ paths : List (List String),
      (paths.map graph.serial).filter (!opensRegion ·) = paths.map graph.serial := by
    intro paths
    simp [List.filter_eq_self, opensRegion_serial]
  have regions : ((partition.regions.filter (·.batches ≠ [])).map (Region.stages graph)).filter
      (!opensRegion ·) = [] := by
    rw [List.filter_eq_nil_iff]
    intro strand member
    simp [opensRegion_of_mem member]
  rw [strands_machine, List.filter_append, chains, regions, List.append_nil]

theorem regionStrands_machine (graph : Graph) (partition : Partition) :
    (partition.machine graph).strands.filter opensRegion =
      (partition.regions.filter (·.batches ≠ [])).map (Region.stages graph) := by
  have chains : ∀ paths : List (List String), (paths.map graph.serial).filter opensRegion = [] := by
    intro paths
    simp [List.filter_eq_nil_iff, opensRegion_serial]
  rw [strands_machine, List.filter_append, chains, List.nil_append, List.filter_eq_self]
  exact fun strand member => opensRegion_of_mem member

section

variable (selfKeyed : graph.SelfKeyed)
include selfKeyed

theorem map_node_serial (path : List String) : (graph.serial path).map Stage.node = path := by
  induction path with
  | nil => rfl
  | cons key rest ih => rw [Graph.serial, List.map_cons, ih, Node.stage, selfKeyed.id_nodeAt]

theorem batchNodes_batchStages (region : Region) (batch : List String) (number : Nat) :
    batchNodes (region.batchStages graph batch number) = batch := by
  have tasks : (batch.map fun key => (graph.nodeAt key).stage
        (StateId.batchJoin region.id number).text).filter (·.role = .task) =
      batch.map fun key => (graph.nodeAt key).stage (StateId.batchJoin region.id number).text := by
    rw [List.filter_eq_self]
    intro stage member
    obtain ⟨key, _, rfl⟩ := List.mem_map.1 member
    rfl
  have ids : (fun key => (graph.nodeAt key).id) = id := funext selfKeyed.id_nodeAt
  rw [batchNodes, Region.batchStages, List.filter_append, List.filter_cons_of_neg (by simp [Region.start]),
    tasks, List.filter_cons_of_neg (by simp [Region.join]), List.filter_nil, List.append_nil, List.map_map]
  exact (congrArg (List.map · batch) ids).trans (List.map_id batch)

theorem batches_of_stages (region : Region) :
    (cutAfter (·.role = .batchJoin) (region.stages graph)).map batchNodes = region.batches := by
  have pieces : cutAfter (·.role = .batchJoin) (region.stages graph) =
      region.numbered.map fun numbered => region.batchStages graph numbered.1 numbered.2 := by
    rw [Region.stages, List.flatMap_def]
    refine cutAfter_flatten fun piece member => ?_
    obtain ⟨numbered, _, rfl⟩ := List.mem_map.1 member
    exact Region.endsAt_batchStages graph region numbered.1 numbered.2
  rw [pieces, List.map_map]
  calc region.numbered.map (batchNodes ∘ fun numbered => region.batchStages graph numbered.1 numbered.2)
      = region.numbered.map Prod.fst :=
        List.map_congr_left fun numbered _ => batchNodes_batchStages selfKeyed region numbered.1 numbered.2
    _ = region.batches := List.zipIdx_map_fst 1 region.batches

/-- The chains that are not empty can be read off the machine of a partition. -/
theorem paths_machine :
    (partition.machine graph).paths = (partition.chains.map Chain.path).filter (· ≠ []) := by
  rw [Machine.paths, chainStrands_machine, List.map_map]
  calc ((partition.chains.map Chain.path).filter (· ≠ [])).map (List.map Stage.node ∘ graph.serial)
      = ((partition.chains.map Chain.path).filter (· ≠ [])).map id :=
        List.map_congr_left fun path _ => map_node_serial selfKeyed path
    _ = (partition.chains.map Chain.path).filter (· ≠ []) := List.map_id _

/-- So can the regions that have batches, with the id of the start of their first batch. -/
theorem batchings_machine :
    (partition.machine graph).batchings = (partition.regions.filter (·.batches ≠ [])).map fun region =>
      (some (StateId.batchStart region.id 1).text, region.batches) := by
  rw [Machine.batchings, regionStrands_machine, List.map_map]
  refine List.map_congr_left fun region listed => ?_
  obtain ⟨batch, first⟩ := head?_stages graph (of_decide_eq_true (List.mem_filter.1 listed).2)
  simp only [Function.comp_apply, first, batches_of_stages selfKeyed]
  rfl

end

/-- Of a graph whose nodes are stored under their own ids, partitions that compile to one machine have
the same chains and the same regions. They differ only in what leaves no trace: the ids of chains, the
joins that are declared, empty chains and regions without batches. -/
theorem same_structure_of_compile {first second : Partition} {other : Settings} {machine : Machine}
    (selfKeyed : graph.SelfKeyed) (compiled : first.compile settings graph = .ok machine)
    (also : second.compile other graph = .ok machine) :
    (first.chains.map Chain.path).filter (· ≠ []) = (second.chains.map Chain.path).filter (· ≠ []) ∧
    (first.regions.filter (·.batches ≠ [])).map (fun region => (region.id, region.batches)) =
      (second.regions.filter (·.batches ≠ [])).map fun region => (region.id, region.batches) := by
  have left := eq_machine_of_compile compiled
  have right := eq_machine_of_compile also
  constructor
  · rw [← paths_machine selfKeyed, ← paths_machine selfKeyed, ← left, ← right]
  · have named : Function.Injective fun entry : String × List (List String) =>
        (some (StateId.batchStart entry.1 1).text, entry.2) := by
      intro entry twin same
      obtain ⟨ids, batches⟩ := Prod.mk.inj same
      exact Prod.ext (StateId.batchStart.inj (StateId.text_injective (Option.some.inj ids))).1 batches
    apply named.list_map
    rw [List.map_map, List.map_map]
    calc _ = (first.machine graph).batchings := (batchings_machine selfKeyed).symm
      _ = (second.machine graph).batchings := by rw [← left, ← right]
      _ = _ := batchings_machine selfKeyed

/-- The diamond under other names, with a chain and a region that leave no trace. -/
def disguised : Partition where
  chains := [{ id := "void" }, { id := "crown", path := ["a"] }]
  regions := [{ id := "body", batches := [["b", "c"], ["d"]] }, { id := "body" }]

theorem same_structure_disguised :
    diamondGraph.SelfKeyed ∧
      (∃ machine, diamond.compile { reviewPartition := false } diamondGraph = .ok machine ∧
        disguised.compile { reviewPartition := false } diamondGraph = .ok machine) ∧
      (diamond.chains.map Chain.path).filter (· ≠ []) = (disguised.chains.map Chain.path).filter (· ≠ []) ∧
      (diamond.regions.filter (·.batches ≠ [])).map (fun region => (region.id, region.batches)) =
        (disguised.regions.filter (·.batches ≠ [])).map fun region => (region.id, region.batches) := by
  have selfKeyed := consistent_diamond.selfKeyed
  have compiled : diamond.compile { reviewPartition := false } diamondGraph =
      .ok (diamond.machine diamondGraph) := by decide +kernel
  have also : disguised.compile { reviewPartition := false } diamondGraph =
      .ok (diamond.machine diamondGraph) := by decide +kernel
  exact ⟨selfKeyed, ⟨_, compiled, also⟩, same_structure_of_compile selfKeyed compiled also⟩

end Partition

end Orchestration
