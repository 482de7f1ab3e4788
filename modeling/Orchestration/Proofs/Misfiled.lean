import Orchestration.Proofs.Compilation

/-! Chains over nodes that are stored under other keys than their ids. States are named after ids, and
edges lead to keys, so a step leads on to the next one only where the next has its own key. An audit sees
no more than that every edge leads to the one task whose id was asked for. -/

set_option autoImplicit false

namespace Orchestration

/-- At a place among the steps of all chains, one of them goes on from a key to the next. -/
inductive Partition.Proceeds (partition : Partition) : Nat → String → String → Prop where
  | step {earlier later : List Chain} {chain : Chain} {before behind : List String} {key next : String}
      (chains : partition.chains = earlier ++ chain :: later)
      (path : chain.path = before ++ key :: next :: behind) :
      Proceeds partition (earlier.flatMap Chain.path ++ before).length key next

def Stage.StandsFor (stage : Stage) (graph : Graph) (key : String) : Prop :=
  ∃ node, graph.find? key = some node ∧ stage.id = (StateId.task node.id).text ∧ stage.role = .task ∧
    stage.node = node.id ∧ stage.task = node.task

/-- The state emitted for each step of a chain leads on to the state emitted for the next one. -/
def Partition.KeepsOrder (partition : Partition) (machine : Machine) : Prop :=
  ∀ place key next, partition.Proceeds place key next →
    ∃ stage follower, machine.states[place]? = some (.stage stage) ∧
      machine.states[place + 1]? = some (.stage follower) ∧ stage.continueTargets = [follower.id]

variable {settings : Settings} {graph : Graph} {partition : Partition} {machine : Machine}

theorem Graph.length_serial (graph : Graph) (path : List String) :
    (graph.serial path).length = path.length := by
  induction path with
  | nil => rfl
  | cons key rest ih => rw [serial, List.length_cons, ih, List.length_cons]

theorem Graph.getElem?_serial (graph : Graph) (before behind : List String) (key : String) :
    (graph.serial (before ++ key :: behind))[before.length]? =
      some ((graph.nodeAt key).stage (following behind)) := by
  induction before with
  | nil => rfl
  | cons first before ih => exact ih

theorem Graph.standsFor_stage {key : String} (known : graph.contains key = true) (next : String) :
    ((graph.nodeAt key).stage next).StandsFor graph key :=
  ⟨graph.nodeAt key, graph.find?_eq_some_nodeAt known, rfl, rfl, rfl, rfl⟩

namespace Partition

/-- The states of chains come first, in the order of the steps. -/
theorem getElem?_states_machine (graph : Graph) {earlier later : List Chain} {chain : Chain}
    {before behind : List String} {key : String} (chains : partition.chains = earlier ++ chain :: later)
    (path : chain.path = before ++ key :: behind) :
    (partition.machine graph).states[(earlier.flatMap Chain.path ++ before).length]? =
      some (.stage ((graph.nodeAt key).stage (following behind))) := by
  have front : (earlier.flatMap fun chain => graph.serial chain.path).length =
      (earlier.flatMap Chain.path).length := by
    simp only [List.length_flatMap, graph.length_serial]
  have inside : before.length < (graph.serial chain.path).length := by
    rw [graph.length_serial, path, List.length_append, List.length_cons]
    omega
  have states : (partition.machine graph).states =
      ((earlier.flatMap fun chain => graph.serial chain.path) ++ (graph.serial chain.path ++
        (later.flatMap (fun chain => graph.serial chain.path) ++
          partition.regions.flatMap (Region.stages graph)))).map .stage ++
        [.final Ending.success.id, .final Ending.failure.id] := by
    simp only [machine, stages, chains, List.flatMap_append, List.flatMap_cons, List.append_assoc]
  rw [states, List.length_append, ← front, List.getElem?_append_left (by simp; omega), List.getElem?_map,
    List.getElem?_append_right (Nat.le_add_right _ _), Nat.add_sub_cancel_left,
    List.getElem?_append_left inside, path, graph.getElem?_serial]
  rfl

/-- Only the task of a node has an id that is made from the node's. -/
theorem Emits.of_task_id {stage : Stage} {key : String} (emitted : partition.Emits graph stage)
    (named : stage.id = (StateId.task key).text) : stage.role = .task ∧ stage.node = key := by
  cases emitted with
  | step => exact ⟨rfl, StateId.task.inj (StateId.text_injective named)⟩
  | branch => exact ⟨rfl, StateId.task.inj (StateId.text_injective named)⟩
  | @start region _ number =>
    have same : (StateId.batchStart region.id number).text = (StateId.task key).text := named
    cases StateId.text_injective same
  | @join region _ number =>
    have same : (StateId.batchJoin region.id number).text = (StateId.task key).text := named
    cases StateId.text_injective same

/-- Of the states of a sound machine of a partition, one alone has the id of a task to which an edge leads. -/
theorem exists_task_of_target (sound : (partition.machine graph).Sound) {stage : Stage}
    (member : stage ∈ (partition.machine graph).stages) {key : String}
    (leads : stage.continueTargets = [(StateId.task key).text]) :
    ∃ target ∈ (partition.machine graph).stages, stage.continueTargets = [target.id] ∧ target.role = .task ∧
      target.node = key ∧ ∀ state ∈ (partition.machine graph).states, state.id = target.id →
        state = .stage target := by
  have leaves : (StateId.task key).text ∈ stage.continueTargets := leads ▸ List.mem_singleton_self _
  obtain ⟨edge, continues, same⟩ := Machine.mem_continueTargets.1 leaves
  have known := sound.targets stage member edge (Machine.mem_continues.1 continues).1
  rw [same] at known
  obtain ⟨state, stored, named⟩ := List.mem_map.1 known
  cases state with
  | final name =>
    obtain ⟨ending, rfl⟩ := sound.finals name stored
    have clash : (StateId.final ending).text = (StateId.task key).text := named
    cases StateId.text_injective clash
  | stage target =>
    have inStages := Machine.mem_stages.2 stored
    obtain ⟨role, node⟩ := (mem_stages_machine.1 inStages).of_task_id named
    refine ⟨target, inStages, ?_, role, node, fun other also twin => ?_⟩
    · rw [leads]
      exact congrArg (fun id => [id]) named.symm
    · exact List.inj_on_of_nodup_map sound.distinct also stored twin

/-- Where an audit has passed what is compiled, the state emitted for a step of a chain leads to just one
state, the task of the node that has the next key for its id. That is the state emitted for the next step
exactly if the node under the next key has that key for its id. -/
theorem leads_on_iff_own_key (auditing : settings.auditMachine = true)
    (compiled : partition.compile settings graph = .ok machine) {place : Nat} {key next : String}
    (proceeds : partition.Proceeds place key next) :
    ∃ stage follower, machine.states[place]? = some (.stage stage) ∧ stage.StandsFor graph key ∧
      machine.states[place + 1]? = some (.stage follower) ∧ follower.StandsFor graph next ∧
      (stage.continueTargets = [follower.id] ↔ ∃ node, graph.find? next = some node ∧ node.id = next) ∧
      ∃ target ∈ machine.stages, stage.continueTargets = [target.id] ∧ target.role = .task ∧
        target.node = next ∧ ∀ state ∈ machine.states, state.id = target.id → state = .stage target := by
  obtain ⟨emitted, audited⟩ := emit_of_compile compiled
  obtain ⟨known, _, rfl⟩ := emit_eq_ok_iff_nodup_ids.1 emitted
  have sound := Machine.hasErrors_audit_eq_false_iff.1 (audited auditing)
  cases proceeds with
  | @step earlier later chain before behind key next chains path =>
    have listed : ∀ step ∈ chain.path, graph.contains step = true := fun step member =>
      known step (mem_listed.2 (.inl ⟨chain, by simp [chains], member⟩))
    have further : chain.path = (before ++ [key]) ++ next :: behind := by simp [path]
    have first := getElem?_states_machine graph chains path
    have second := getElem?_states_machine graph chains further
    rw [← List.append_assoc, List.length_append, List.length_singleton] at second
    have knownNext := listed next (by simp [path])
    refine ⟨_, _, first, graph.standsFor_stage (listed key (by simp [path])) _, second,
      graph.standsFor_stage knownNext _, ?_, ?_⟩
    · rw [graph.find?_eq_some_nodeAt knownNext]
      constructor
      · intro same
        have ids : (StateId.task next).text = (StateId.task (graph.nodeAt next).id).text :=
          List.singleton_inj.1 same
        exact ⟨_, rfl, (StateId.task.inj (StateId.text_injective ids)).symm⟩
      · rintro ⟨node, found, own⟩
        cases found
        show [(StateId.task next).text] = [(StateId.task (graph.nodeAt next).id).text]
        rw [own]
    · have member := Machine.mem_stages.2 (List.mem_of_getElem? first)
      exact exists_task_of_target sound member rfl

def crossedGraph : Graph where
  nodes := .ofList ([("a", { id := "b", task := "first" }), ("b", { id := "a", task := "second" }),
    ("c", { id := "c", task := "third" })] : List (String × Node))

def crossed : Partition where
  chains := [{ id := "line", path := ["a", "b", "c"] }]

theorem leads_on_crossed :
    ∃ machine stage follower, crossed.compile { reviewPartition := false } crossedGraph = .ok machine ∧
      crossed.Proceeds 1 "b" "c" ∧ machine.states[1]? = some (.stage stage) ∧
        machine.states[2]? = some (.stage follower) ∧ stage.continueTargets = [follower.id] := by
  have proceeds : crossed.Proceeds 1 "b" "c" := @Proceeds.step crossed [] [] _ ["a"] [] "b" "c" rfl rfl
  have compiled : crossed.compile { reviewPartition := false } crossedGraph =
      .ok (crossed.machine crossedGraph) := by decide +kernel
  have stored : crossedGraph.find? "c" = some { id := "c", task := "third" } := by decide +kernel
  obtain ⟨stage, follower, first, _, second, _, leads, _⟩ := leads_on_iff_own_key rfl compiled proceeds
  exact ⟨_, stage, follower, compiled, proceeds, first, second, leads.2 ⟨_, stored, rfl⟩⟩

/-- The first step of the crossed chain stands for the key of the second, and leads on to itself; an audit
has no objection. -/
theorem not_keepsOrder_crossed :
    ∃ machine stage, crossed.compile { reviewPartition := false } crossedGraph = .ok machine ∧
      machine.states[0]? = some (.stage stage) ∧ stage.continueTargets = [stage.id] ∧
        ¬ crossed.KeepsOrder machine := by
  have compiled : crossed.compile { reviewPartition := false } crossedGraph =
      .ok (crossed.machine crossedGraph) := by decide +kernel
  have proceeds : crossed.Proceeds 0 "a" "b" := @Proceeds.step crossed [] [] _ [] ["c"] "a" "b" rfl rfl
  have first : (crossed.machine crossedGraph).states[0]? =
      some (.stage ((crossedGraph.nodeAt "a").stage (following ["b", "c"]))) := by decide +kernel
  have second : (crossed.machine crossedGraph).states[1]? =
      some (.stage ((crossedGraph.nodeAt "b").stage (following ["c"]))) := by decide +kernel
  refine ⟨_, _, compiled, first, by decide +kernel, fun keeps => ?_⟩
  obtain ⟨stage, follower, here, there, leads⟩ := keeps 0 "a" "b" proceeds
  cases first.symm.trans here
  cases second.symm.trans there
  revert leads
  decide +kernel

end Partition

end Orchestration
