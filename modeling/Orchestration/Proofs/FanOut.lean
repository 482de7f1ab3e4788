import Orchestration.Machine.FanOut
import Orchestration.Proofs.Audit

/-! Fan-outs of audited machines. An audit compares the branches of a batch start through the
stages of a machine, and passes over a branch that leads to a final state; whoever reads the
start follows its first branch. The two agree exactly where no branch leads to a final state. -/

set_option autoImplicit false

namespace Orchestration.Machine

variable {machine : Machine} {start : Stage}

theorem mem_continueTargets {stage : Stage} {target : String} :
    target ∈ stage.continueTargets ↔ ∃ edge ∈ stage.continues, edge.target = target :=
  List.mem_map

theorem mem_goals {branches : List String} {goal : String} :
    goal ∈ machine.goals branches ↔ ∃ target ∈ branches, ∃ stage, machine.firstStage? target = some stage ∧
      stage.role = .task ∧ goal ∈ stage.continueTargets := by
  simp only [goals, List.mem_flatMap, List.mem_filter, List.mem_filterMap, decide_eq_true_eq]
  grind

theorem batchStart_of_mem_stages (sound : machine.Sound) (member : start ∈ machine.stages)
    (role : start.role = .batchStart) : machine.batchStart start.id = .ok start :=
  batchStart_eq_ok_iff.2 ⟨stageAt?_of_mem_stages sound.distinct member, role⟩

theorem arrivals_of_mem_stages (sound : machine.Sound) (member : start ∈ machine.stages)
    (role : start.role = .batchStart) : machine.arrivals start.id = .ok start.arrivals := by
  rw [arrivals, batchStart_of_mem_stages sound member role]
  rfl

theorem joinOf_of_mem_stages (sound : machine.Sound) (member : start ∈ machine.stages)
    (role : start.role = .batchStart) {join : Stage} (after : machine.joinAfter? start = some join) :
    machine.joinOf start.id = .ok join.id := by
  simp only [joinOf, batchStart_of_mem_stages sound member role, after]

/-- The state a batch start reaches is its join, whether directly or through its first branch. -/
theorem joinAfter?_eq_some (distinct : machine.ids.Nodup) {first join : Stage}
    (head : start.continueTargets.head? = some first.id) (member : first ∈ machine.stages)
    (stored : join ∈ machine.stages) (role : join.role = .batchJoin)
    (reached : first = join ∨ first.role = .task ∧ first.continueTargets.head? = some join.id) :
    machine.joinAfter? start = some join := by
  have next : machine.successor? start = some first := by
    simp only [successor?, head, Option.bind_some, stageAt?_of_mem_stages distinct member]
  rcases reached with rfl | ⟨task, goal⟩
  · simp [joinAfter?, next, role]
  · have follow : machine.successor? first = some join := by
      simp only [successor?, goal, Option.bind_some, stageAt?_of_mem_stages distinct stored]
    simp [joinAfter?, next, task, follow, role]

/-- What a runtime relies on at a batch start: its join is known, and as many branches as are
expected arrive there. Marked branches are distinct tasks that go on to the join and nowhere
else; without marks the join itself comes next. -/
def Dispatches (machine : Machine) (start : Stage) : Prop :=
  ∃ expected, ∃ join ∈ machine.stages, join.role = .batchJoin ∧
    machine.arrivals start.id = .ok expected ∧ machine.joinOf start.id = .ok join.id ∧
    ((∃ edge ∈ start.continues, edge.parallel = true) →
      start.continueTargets.Nodup ∧ expected = start.continueTargets.length ∧
      ∀ target ∈ start.continueTargets, ∃ task ∈ machine.stages,
        task.id = target ∧ task.role = .task ∧ task.continueTargets = [join.id]) ∧
    ((∀ edge ∈ start.continues, edge.parallel = false) →
      expected = 1 ∧ start.continueTargets = [join.id])

theorem arrivals_eq_one (unmarked : ∀ edge ∈ start.continues, edge.parallel = false) :
    start.arrivals = 1 := by
  have none : start.continues.countP Transition.parallel = 0 := by
    simpa [List.countP_eq_zero] using unmarked
  rw [Stage.arrivals, none]
  rfl

theorem arrivals_eq_length (branches : start.continues ≠ [])
    (marked : ∀ edge ∈ start.continues, edge.parallel = true) :
    start.arrivals = start.continueTargets.length := by
  have all : start.continues.countP Transition.parallel = start.continues.length :=
    List.countP_eq_length.2 marked
  have positive := List.length_pos_iff.2 branches
  rw [Stage.arrivals, all, Stage.continueTargets, List.length_map]
  omega

theorem dispatches_of_direct (sound : machine.Sound) (member : start ∈ machine.stages)
    (role : start.role = .batchStart) {edge : Transition} (single : start.continues = [edge])
    (unmarked : edge.parallel = false) (joins : machine.role? edge.target = some .batchJoin) :
    machine.Dispatches start := by
  obtain ⟨join, stored, named, joinRole⟩ := role?_eq_some joins
  have targets : start.continueTargets = [join.id] := by
    rw [Stage.continueTargets, single, List.map_singleton, named]
  have after := joinAfter?_eq_some sound.distinct (by rw [targets]; rfl) stored stored joinRole (.inl rfl)
  have silent : ∀ other ∈ start.continues, other.parallel = false := by simpa [single] using unmarked
  refine ⟨start.arrivals, join, stored, joinRole, arrivals_of_mem_stages sound member role,
    joinOf_of_mem_stages sound member role after, ?_, fun _ => ⟨arrivals_eq_one silent, targets⟩⟩
  intro some
  rcases some with ⟨other, leaves, marked⟩
  rw [silent other leaves] at marked
  cases marked

theorem stage_of_target (sound : machine.Sound) (member : start ∈ machine.stages) {edge : Transition}
    (leaves : edge ∈ start.continues) (stays : .final edge.target ∉ machine.states) :
    ∃ stage ∈ machine.stages, stage.id = edge.target := by
  have known := sound.targets start member edge (mem_continues.1 leaves).1
  obtain ⟨state, stored, named⟩ := List.mem_map.1 known
  cases state with
  | stage stage => exact ⟨stage, mem_stages.2 stored, named⟩
  | final id =>
    cases named
    exact absurd stored stays

/-- Every branch of a batch start ends in a task, and the one edge of the task leads to one of the goals. -/
theorem exists_task_of_branch (sound : machine.Sound) (member : start ∈ machine.stages)
    (tasks : ∀ target ∈ start.continueTargets, ∀ role, machine.role? target = some role → role = .task)
    (stays : ∀ edge ∈ start.continues, .final edge.target ∉ machine.states) {target : String}
    (leads : target ∈ start.continueTargets) :
    ∃ task ∈ machine.stages, task.id = target ∧ task.role = .task ∧
      ∃ goal, task.continueTargets = [goal] ∧ goal ∈ machine.goals start.continueTargets := by
  obtain ⟨edge, leaves, rfl⟩ := mem_continueTargets.1 leads
  obtain ⟨task, stored, named⟩ := stage_of_target sound member leaves (stays edge leaves)
  have known := role?_of_mem_stages sound.distinct stored
  have taskRole := tasks edge.target leads task.role (named ▸ known)
  obtain ⟨next, single⟩ := sound.continues task stored (by simp [taskRole])
  have targets : task.continueTargets = [next.target] := by
    rw [Stage.continueTargets, single, List.map_singleton]
  have first := firstStage?_of_mem_stages sound.distinct stored
  exact ⟨task, stored, named, taskRole, next.target, targets,
    mem_goals.2 ⟨edge.target, leads, task, named ▸ first, taskRole, by simp [targets]⟩⟩

theorem dispatches_of_marked (sound : machine.Sound) (member : start ∈ machine.stages)
    (role : start.role = .batchStart) (branches : start.continues ≠ [])
    (marked : ∀ edge ∈ start.continues, edge.parallel = true) (once : start.continueTargets.Nodup)
    (tasks : ∀ target ∈ start.continueTargets, ∀ role, machine.role? target = some role → role = .task)
    (converge : ∀ goal ∈ machine.goals start.continueTargets, machine.role? goal = some .batchJoin ∧
      ∀ other ∈ machine.goals start.continueTargets, other = goal)
    (stays : ∀ edge ∈ start.continues, .final edge.target ∉ machine.states) :
    machine.Dispatches start := by
  cases list : start.continueTargets with
  | nil =>
    have empty : start.continues = [] := List.map_eq_nil_iff.1 list
    exact absurd empty branches
  | cons target rest =>
    have opens : target ∈ start.continueTargets := by simp [list]
    obtain ⟨first, stored, named, taskRole, goal, targets, reached⟩ :=
      exists_task_of_branch sound member tasks stays opens
    obtain ⟨joins, unique⟩ := converge goal reached
    obtain ⟨join, joinStored, rfl, joinRole⟩ := role?_eq_some joins
    have after := joinAfter?_eq_some sound.distinct (by rw [list, named]; rfl) stored joinStored joinRole
      (.inr ⟨taskRole, by rw [targets]; rfl⟩)
    refine ⟨start.arrivals, join, joinStored, joinRole, arrivals_of_mem_stages sound member role,
      joinOf_of_mem_stages sound member role after,
      fun _ => ⟨once, arrivals_eq_length branches marked, ?_⟩, ?_⟩
    · intro other leads
      obtain ⟨task, taskStored, taskNamed, otherRole, otherGoal, otherTargets, otherReached⟩ :=
        exists_task_of_branch sound member tasks stays leads
      -- the goals agree, so the task leads to the same join
      rw [unique otherGoal otherReached] at otherTargets
      exact ⟨task, taskStored, taskNamed, otherRole, otherTargets⟩
    · intro unmarked
      obtain ⟨edge, leaves⟩ := List.exists_mem_of_ne_nil _ branches
      have clash := marked edge leaves
      rw [unmarked edge leaves] at clash
      cases clash

/-- In a machine that an audit passes, a batch start can be relied upon exactly if none of its
marked branches leads to a final state: the audit overlooks such a branch. -/
theorem dispatches_iff (clean : machine.audit.hasErrors = false) (member : start ∈ machine.stages)
    (role : start.role = .batchStart) :
    machine.Dispatches start ↔
      ∀ edge ∈ start.continues, edge.parallel = true → .final edge.target ∉ machine.states := by
  have sound := hasErrors_audit_eq_false_iff.1 clean
  constructor
  · intro dispatches edge leaves marked final
    rcases dispatches with ⟨expected, join, _, _, _, _, fans, _⟩
    obtain ⟨_, _, branches⟩ := fans ⟨edge, leaves, marked⟩
    obtain ⟨task, stored, named, _, _⟩ := branches edge.target (mem_continueTargets.2 ⟨edge, leaves, rfl⟩)
    -- the branch would be a task and a final state under one id
    have same := List.inj_on_of_nodup_map sound.distinct (mem_stages.1 stored) final named
    cases same
  · intro stays
    rcases sound.fanOuts start member role with
      ⟨edge, single, unmarked, joins⟩ | ⟨branches, marked, once, tasks, converge⟩
    · exact dispatches_of_direct sound member role single unmarked joins
    · exact dispatches_of_marked sound member role branches marked once tasks converge fun edge leaves =>
        stays edge leaves (marked edge leaves)

def pairOfBranches (other : String) : Machine where
  states := [
    .stage { id := "start", role := .batchStart, transitions :=
      [⟨.proceed, other, true⟩, ⟨.proceed, "left", true⟩, ⟨.error, "failure", false⟩] },
    .stage { id := "left", role := .task, transitions :=
      [⟨.proceed, "join", false⟩, ⟨.error, "failure", false⟩] },
    .stage { id := "right", role := .task, transitions :=
      [⟨.proceed, "join", false⟩, ⟨.error, "failure", false⟩] },
    .stage { id := "join", role := .batchJoin, transitions :=
      [⟨.proceed, "success", false⟩, ⟨.error, "failure", false⟩] },
    .final "success", .final "failure"]

theorem dispatches_pairOfBranches :
    ∃ start ∈ (pairOfBranches "right").stages, (pairOfBranches "right").audit.hasErrors = false ∧
      start.role = .batchStart ∧ (pairOfBranches "right").Dispatches start :=
  have clean : (pairOfBranches "right").audit.hasErrors = false := by decide +kernel
  ⟨_, List.mem_cons_self, clean, rfl, (dispatches_iff clean List.mem_cons_self rfl).2 (by decide)⟩

/-- A second branch that leads out of the machine passes the audit all the same, and then the
join of the start cannot be found. -/
theorem not_dispatches_of_final_branch :
    (pairOfBranches "success").audit.hasErrors = false ∧
      (pairOfBranches "success").joinOf "start" = .error (.noJoin "start") ∧
      ¬ ∀ start ∈ (pairOfBranches "success").stages, start.role = .batchStart →
        (pairOfBranches "success").Dispatches start := by
  have lost : (pairOfBranches "success").joinOf "start" = .error (.noJoin "start") := by decide +kernel
  refine ⟨by decide +kernel, lost, fun dispatches => ?_⟩
  obtain ⟨_, _, _, _, _, found, _⟩ := dispatches _ List.mem_cons_self rfl
  cases found.symm.trans lost

end Orchestration.Machine
