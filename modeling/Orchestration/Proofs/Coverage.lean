import Mathlib.Algebra.BigOperators.Ring.List
import Mathlib.Algebra.Ring.Nat
import Orchestration.Proofs.Recovery

/-! What is compiled of a partition. Every listing of a node becomes one task state, in the order of the
listings, and every batch adds two states of its own. Where full coverage is asked for, the tasks are
the nodes of the graph, each of them once. -/

set_option autoImplicit false

namespace Orchestration

def Machine.tasks (machine : Machine) : List Stage :=
  machine.stages.filter (·.role = .task)

namespace Region

variable (region : Region)

theorem length_names : region.names.length = region.batches.flatten.length + 2 * region.batches.length := by
  have sizes : (region.numbered.map fun numbered => (region.batchNames numbered.1 numbered.2).length) =
      (region.numbered.map Prod.fst).map fun batch => batch.length + 2 := by
    simp [batchNames]
  rw [names, List.length_flatMap, sizes, numbered, List.zipIdx_map_fst, List.sum_map_add, List.length_flatten,
    List.map_const', List.sum_replicate_nat, Nat.mul_comm]

theorem map_node_tasks {graph : Graph} (selfKeyed : graph.SelfKeyed) :
    ((region.stages graph).filter (·.role = .task)).map Stage.node = region.batches.flatten := by
  rw [stages, List.filter_flatMap, List.map_flatMap, ← region.flatMap_numbered]
  exact List.flatMap_congr fun numbered _ =>
    Partition.batchNodes_batchStages selfKeyed region numbered.1 numbered.2

end Region

namespace Partition

variable {settings : Settings} {graph : Graph} {partition : Partition}

theorem length_listed (partition : Partition) : partition.listed.length = partition.referenceCount :=
  List.length_map _

theorem length_stageNames (partition : Partition) :
    partition.stageNames.length =
      partition.referenceCount + 2 * (partition.regions.map (·.batches.length)).sum := by
  rw [← length_listed, listed_eq, stageNames]
  simp only [List.length_append, List.length_flatMap, List.length_map, Region.length_names,
    List.sum_map_add, List.sum_map_mul_left]
  omega

theorem filter_serial (path : List String) :
    (graph.serial path).filter (·.role = .task) = graph.serial path := by
  rw [List.filter_eq_self]
  intro stage member
  obtain ⟨_, key, _, _, rfl⟩ := Graph.mem_serial.1 member
  rfl

theorem exists_of_mem_tasks {stage : Stage} (member : stage ∈ (partition.machine graph).tasks) :
    ∃ key ∈ partition.listed, ∃ next, stage = (graph.nodeAt key).stage next := by
  obtain ⟨stored, task⟩ := List.mem_filter.1 member
  cases mem_stages_machine.1 stored with
  | @step chain before after key inChains path =>
    refine ⟨key, mem_listed.2 (.inl ⟨chain, inChains, ?_⟩), _, rfl⟩
    rw [path]
    exact List.mem_append_cons_self
  | @branch region batch number key inRegions place inBatch =>
    have listed : batch ∈ region.batches := List.fst_mem_of_mem_zipIdx place
    exact ⟨key, mem_listed.2 (.inr ⟨region, inRegions, batch, listed, inBatch⟩), _, rfl⟩
  | start => simp [Region.start] at task
  | join => simp [Region.join] at task

section

variable (selfKeyed : graph.SelfKeyed)
include selfKeyed

theorem map_node_tasks_machine (partition : Partition) :
    (partition.machine graph).tasks.map Stage.node = partition.listed := by
  rw [Machine.tasks, stages_machine, stages, listed_eq, List.filter_append, List.map_append,
    List.filter_flatMap, List.filter_flatMap, List.map_flatMap, List.map_flatMap]
  congr 1
  · refine List.flatMap_congr fun chain _ => ?_
    rw [filter_serial, map_node_serial selfKeyed]
  · exact List.flatMap_congr fun region _ => region.map_node_tasks selfKeyed

theorem length_states_machine (partition : Partition) : (partition.machine graph).states.length =
    partition.referenceCount + 2 * (partition.regions.map (·.batches.length)).sum + 2 := by
  have ids : (partition.machine graph).ids.length = (partition.machine graph).states.length :=
    List.length_map _
  rw [← ids, selfKeyed.ids_machine, List.length_map, names, List.length_append, length_stageNames]
  rfl

/-- A task state is named after its node and says what the graph's node says. -/
theorem task_machine (known : ∀ key ∈ partition.listed, graph.contains key = true) {stage : Stage}
    (member : stage ∈ (partition.machine graph).tasks) :
    stage.id = (StateId.task stage.node).text ∧
      ∃ node, graph.find? stage.node = some node ∧ stage.task = node.task := by
  obtain ⟨key, listed, next, rfl⟩ := exists_of_mem_tasks member
  have named : ((graph.nodeAt key).stage next).node = key := selfKeyed.id_nodeAt key
  rw [named]
  exact ⟨selfKeyed.id_stage key next, _, graph.find?_eq_some_nodeAt (known key listed), rfl⟩

end

/-- With full coverage a partition lists every node of the graph, and each once. -/
theorem Consistent.listed_perm (consistent : Consistent settings graph partition)
    (full : settings.fullCoverage = true) : partition.listed.Perm graph.nodes.keys := by
  apply (List.perm_ext_iff_of_nodup consistent.nodup_listed graph.nodup_keys).2
  intro key
  rw [Graph.mem_keys]
  exact ⟨consistent.known key, consistent.coverage full key⟩

/-- Of a graph whose nodes are stored under their own ids, a partition is compiled node by node: the
tasks are those of the chains in order and then those of the batches in order, and apart from them there
is a start and a join for every batch and the two endings. A review for full coverage makes sure that
these are all nodes of the graph, each of them once. -/
theorem tasks_of_compile {machine : Machine} (selfKeyed : graph.SelfKeyed)
    (compiled : partition.compile settings graph = .ok machine) :
    machine.tasks.map Stage.node =
        partition.chains.flatMap Chain.path ++ partition.regions.flatMap (·.batches.flatten) ∧
    (∀ stage ∈ machine.tasks, stage.id = (StateId.task stage.node).text ∧
      ∃ node, graph.find? stage.node = some node ∧ stage.task = node.task) ∧
    machine.states.length =
      partition.referenceCount + 2 * (partition.regions.map (·.batches.length)).sum + 2 ∧
    (settings.reviewPartition = true → settings.fullCoverage = true →
      (machine.tasks.map Stage.node).Perm graph.nodes.keys ∧ partition.referenceCount = graph.size) := by
  obtain ⟨known, _, rfl⟩ := (emit_eq_ok_iff selfKeyed).1 (emit_of_compile compiled).1
  have listed := map_node_tasks_machine selfKeyed partition
  refine ⟨by rw [listed, listed_eq], fun stage member => task_machine selfKeyed known member,
    length_states_machine selfKeyed partition, fun reviewing full => ?_⟩
  have perm := (consistent_of_compile reviewing compiled).1.listed_perm full
  rw [listed]
  refine ⟨perm, ?_⟩
  rw [← length_listed, perm.length_eq, Std.TreeMap.length_keys, Graph.size]

theorem tasks_diamond :
    diamondGraph.SelfKeyed ∧ ∃ machine, diamond.compile { fullCoverage := true } diamondGraph = .ok machine ∧
      machine.tasks.map Stage.node = ["a", "b", "c", "d"] ∧ machine.states.length = 10 ∧
        (machine.tasks.map Stage.node).Perm diamondGraph.nodes.keys ∧
          diamond.referenceCount = diamondGraph.size := by
  have selfKeyed := consistent_diamond.selfKeyed
  have compiled : diamond.compile { fullCoverage := true } diamondGraph =
      .ok (diamond.machine diamondGraph) := by decide +kernel
  obtain ⟨nodes, _, size, covered⟩ := tasks_of_compile selfKeyed compiled
  exact ⟨selfKeyed, _, compiled, nodes, size, covered rfl rfl⟩

end Partition

end Orchestration
