import Mathlib.Data.List.Nodup
import Orchestration.Machine.Audit
import Orchestration.Proofs.Acceptance

/-! What an audit without errors says about a machine. All findings but unreached joins are
errors, and there is none exactly when the machine is sound. -/

set_option autoImplicit false

namespace Orchestration.Machine

variable {machine : Machine}

theorem mem_ids_of_mem_stages {stage : Stage} (member : stage ∈ machine.stages) :
    stage.id ∈ machine.ids :=
  List.mem_map.2 ⟨.stage stage, mem_stages.1 member, rfl⟩

theorem find?_of_mem_stages (distinct : machine.ids.Nodup) {stage : Stage}
    (member : stage ∈ machine.stages) : machine.find? stage.id = some (.stage stage) := by
  have stored := mem_stages.1 member
  cases found : machine.find? stage.id with
  | none =>
    have missing : ¬ (machine.find? stage.id).isSome = true := by simp [found]
    exact absurd (find?_isSome_iff.2 (mem_ids_of_mem_stages member)) missing
  | some other =>
    have named := List.find?_some found
    have same := List.inj_on_of_nodup_map distinct (List.mem_of_find?_eq_some found) stored
      (of_decide_eq_true named)
    rw [same]

theorem stageAt?_of_mem_stages (distinct : machine.ids.Nodup) {stage : Stage}
    (member : stage ∈ machine.stages) : machine.stageAt? stage.id = some stage := by
  rw [stageAt?, find?_of_mem_stages distinct member]
  rfl

theorem firstStage?_eq_some {id : String} {stage : Stage}
    (found : machine.firstStage? id = some stage) : stage ∈ machine.stages ∧ stage.id = id := by
  have named := List.find?_some found
  exact ⟨List.mem_of_find?_eq_some found, of_decide_eq_true named⟩

theorem firstStage?_of_mem_stages (distinct : machine.ids.Nodup) {stage : Stage}
    (member : stage ∈ machine.stages) : machine.firstStage? stage.id = some stage := by
  cases found : machine.firstStage? stage.id with
  | none =>
    have missed := List.find?_eq_none.1 found stage member
    simp at missed
  | some other =>
    obtain ⟨stored, named⟩ := firstStage?_eq_some found
    have first := stageAt?_of_mem_stages distinct stored
    rw [named, stageAt?_of_mem_stages distinct member] at first
    exact first.symm

theorem role?_of_mem_stages (distinct : machine.ids.Nodup) {stage : Stage}
    (member : stage ∈ machine.stages) : machine.role? stage.id = some stage.role := by
  rw [role?, firstStage?_of_mem_stages distinct member]
  rfl

theorem role?_eq_some {id : String} {role : Role} (found : machine.role? id = some role) :
    ∃ stage ∈ machine.stages, stage.id = id ∧ stage.role = role := by
  obtain ⟨stage, first, same⟩ := Option.map_eq_some_iff.1 found
  obtain ⟨member, named⟩ := firstStage?_eq_some first
  exact ⟨stage, member, named, same⟩

def goals (machine : Machine) (branches : List String) : List String :=
  ((branches.filterMap machine.firstStage?).filter (·.role = .task)).flatMap Stage.continueTargets

/-- A batch start goes straight to a join, or to distinct branches. None of these is a stage
without a task, and all tasks among them go on to one join. -/
def FansOut (machine : Machine) (start : Stage) : Prop :=
  (∃ edge, start.continues = [edge] ∧ edge.parallel = false ∧
    machine.role? edge.target = some .batchJoin) ∨
  (start.continues ≠ [] ∧ (∀ edge ∈ start.continues, edge.parallel = true) ∧
    start.continueTargets.Nodup ∧
    (∀ target ∈ start.continueTargets, ∀ role, machine.role? target = some role → role = .task) ∧
    ∀ goal ∈ machine.goals start.continueTargets, machine.role? goal = some .batchJoin ∧
      ∀ other ∈ machine.goals start.continueTargets, other = goal)

structure Sound (machine : Machine) : Prop where
  distinct : machine.ids.Nodup
  endings : ∀ ending : Ending, machine.states.count (.final ending.id) = 1
  finals : ∀ id, .final id ∈ machine.states → ∃ ending : Ending, id = ending.id
  targets : ∀ stage ∈ machine.stages, ∀ edge ∈ stage.transitions, edge.target ∈ machine.ids
  failures : ∀ stage ∈ machine.stages,
    ∃ edge, stage.failures = [edge] ∧ edge.target = Ending.failure.id
  marks : ∀ stage ∈ machine.stages, ∀ edge ∈ stage.transitions, edge.parallel = true →
    edge.on = .proceed ∧ stage.role = .batchStart
  continues : ∀ stage ∈ machine.stages, stage.role ≠ .batchStart → ∃ edge, stage.continues = [edge]
  fanOuts : ∀ stage ∈ machine.stages, stage.role = .batchStart → machine.FansOut stage

theorem branchDefects_eq_nil_iff {seen branches : List String} :
    machine.branchDefects seen branches = [] ↔
      branches.Nodup ∧ (∀ target ∈ branches, target ∉ seen) ∧
        ∀ target ∈ branches, ∀ role, machine.role? target = some role → role = .task := by
  induction branches generalizing seen with
  | nil => simp [branchDefects]
  | cons target rest ih =>
    simp only [branchDefects, List.append_eq_nil_iff, ih, List.nodup_cons, List.forall_mem_cons]
    by_cases old : target ∈ seen
    · simp [old]
    · rw [if_neg old]
      simp only [List.mem_cons, not_or]
      cases machine.role? target with
      | none => grind
      | some role => cases role <;> grind

theorem convergenceDefect?_eq_none_iff {branches : List String} :
    machine.convergenceDefect? branches = none ↔
      ∀ goal ∈ machine.goals branches, machine.role? goal = some .batchJoin ∧
        ∀ other ∈ machine.goals branches, other = goal := by
  have members : ∀ id, id ∈ machine.convergence branches ↔ id ∈ machine.goals branches :=
    fun id => Ids.mem_ascending
  have distinct : (machine.convergence branches).Nodup := Ids.nodup_ascending _
  -- the collected goals are the same ones in order and without repetition
  simp only [← members, convergenceDefect?]
  split
  next none => simp [none]
  next join single => simp [single]
  next several _ =>
    cases list : machine.convergence branches with
    | nil => simp_all
    | cons first rest =>
      cases rest with
      | nil => simp_all
      | cons second rest =>
        rw [list] at distinct
        simp only [reduceCtorEq, List.mem_cons, false_iff, not_forall]
        refine ⟨first, .inl rfl, fun unique => ?_⟩
        have same := unique.2 second (.inr (.inl rfl))
        simp [same] at distinct

theorem fanOutDefects_eq_nil_iff {start : Stage} :
    machine.fanOutDefects start = [] ↔ machine.FansOut start := by
  have none : start.continues.countP Transition.parallel = 0 ↔
      ∀ edge ∈ start.continues, edge.parallel = false := by
    simp [List.countP_eq_zero]
  have all : start.continues.countP Transition.parallel = start.continues.length ↔
      ∀ edge ∈ start.continues, edge.parallel = true := List.countP_eq_length
  simp only [fanOutDefects, FansOut, none, ne_eq, all]
  -- no mark, some marks, only marks: the order in which the defects are looked for
  cases edges : start.continues with
  | nil => simp
  | cons edge rest =>
    rw [if_neg (List.cons_ne_nil edge rest)]
    split
    next unmarked =>
      cases rest with
      | nil =>
        by_cases joins : machine.role? edge.target = some .batchJoin
        · simp [joins, unmarked edge]
        · simp [joins, unmarked edge]
      | cons other rest => simp [unmarked edge]
    next marked =>
      split
      next mixed => grind
      next parallel =>
        rw [Decidable.not_not] at parallel
        simp only [List.append_eq_nil_iff, branchDefects_eq_nil_iff, Option.toList_eq_nil_iff,
          convergenceDefect?_eq_none_iff]
        grind

theorem transitionIssues_eq_nil_iff {stage : Stage} {edge : Transition} :
    machine.transitionIssues stage edge = [] ↔
      edge.target ∈ machine.ids ∧ (edge.on = .error → edge.target = Ending.failure.id) ∧
        (edge.parallel = true → edge.on = .proceed ∧ stage.role = .batchStart) := by
  have marks : (edge.parallel = true ∧ (edge.on = .error ∨ stage.role ≠ .batchStart)) ↔
      ¬ (edge.parallel = true → edge.on = .proceed ∧ stage.role = .batchStart) := by
    cases edge.on <;> simp
  simp only [transitionIssues, List.append_eq_nil_iff, marks]
  by_cases known : edge.target ∈ machine.ids <;> simp [known, not_and]

theorem mem_failures {stage : Stage} {edge : Transition} :
    edge ∈ stage.failures ↔ edge ∈ stage.transitions ∧ edge.on = .error := by
  simp [Stage.failures]

theorem mem_continues {stage : Stage} {edge : Transition} :
    edge ∈ stage.continues ↔ edge ∈ stage.transitions ∧ edge.on = .proceed := by
  simp [Stage.continues]

theorem shapeIssues_eq_nil_iff {stage : Stage} :
    machine.shapeIssues stage = [] ↔
      stage.failures.length = 1 ∧ (stage.role = .batchStart → machine.FansOut stage) ∧
        (stage.role ≠ .batchStart → ∃ edge, stage.continues = [edge]) := by
  rw [← List.length_eq_one_iff, ← fanOutDefects_eq_nil_iff, shapeIssues, List.append_eq_nil_iff]
  by_cases single : stage.failures.length = 1 <;> by_cases fans : stage.role = .batchStart <;>
    simp [single, fans]

def faults (machine : Machine) : List Issue :=
  machine.repeatedIssues ++
    machine.states.filterMap finalIssue? ++
    [.success, .failure].filterMap machine.endingIssue? ++
    machine.stages.flatMap machine.stageIssues

theorem isEnding_iff {id : String} :
    id = Ending.success.id ∨ id = Ending.failure.id ↔ ∃ ending : Ending, id = ending.id := by
  constructor
  · intro either
    rcases either with rfl | rfl
    · exact ⟨.success, rfl⟩
    · exact ⟨.failure, rfl⟩
  · intro named
    rcases named with ⟨ending, rfl⟩
    cases ending <;> simp

theorem filterMap_finalIssue?_eq_nil_iff :
    machine.states.filterMap finalIssue? = [] ↔
      (∀ stage ∈ machine.stages, ∀ ending : Ending, stage.id ≠ ending.id) ∧
        ∀ id, .final id ∈ machine.states → ∃ ending : Ending, id = ending.id := by
  rw [List.filterMap_eq_nil_iff]
  simp only [mem_stages]
  constructor
  · intro silent
    constructor
    · intro stage member ending same
      have reported := silent _ member
      simp only [finalIssue?, isEnding_iff, ite_eq_right_iff, reduceCtorEq, imp_false] at reported
      exact reported ⟨ending, same⟩
    · intro id member
      have reported := silent _ member
      simpa only [finalIssue?, isEnding_iff, ite_eq_left_iff, reduceCtorEq, imp_false,
        Decidable.not_not, not_not] using reported
  · intro apart state member
    cases state with
    | stage stage =>
      simp only [finalIssue?, isEnding_iff, ite_eq_right_iff, reduceCtorEq, imp_false]
      intro named
      rcases named with ⟨ending, same⟩
      exact apart.1 stage member ending same
    | final id =>
      simp only [finalIssue?, isEnding_iff, ite_eq_left_iff, reduceCtorEq, imp_false, not_not]
      exact apart.2 id member

theorem Sound.stage_id_ne (sound : machine.Sound) {stage : Stage} (member : stage ∈ machine.stages)
    (ending : Ending) : stage.id ≠ ending.id := by
  intro same
  have stored : State.final ending.id ∈ machine.states :=
    List.count_pos_iff.1 (by rw [sound.endings ending]; exact Nat.one_pos)
  have equal := List.inj_on_of_nodup_map sound.distinct (mem_stages.1 member) stored same
  cases equal

theorem endingIssue?_eq_none_iff {ending : Ending} :
    machine.endingIssue? ending = none ↔ machine.states.count (.final ending.id) = 1 := by
  unfold endingIssue? finalCount
  split <;> simp_all

theorem faults_eq_nil_iff : machine.faults = [] ↔ machine.Sound := by
  have counts : [Ending.success, .failure].filterMap machine.endingIssue? = [] ↔
      ∀ ending : Ending, machine.states.count (.final ending.id) = 1 := by
    simp only [List.filterMap_eq_nil_iff, endingIssue?_eq_none_iff]
    exact ⟨fun silent ending => silent ending (by cases ending <;> simp), fun all ending _ => all ending⟩
  simp only [faults, List.append_eq_nil_iff, repeatedIssues, List.map_eq_nil_iff,
    Ids.repeated_eq_nil_iff, filterMap_finalIssue?_eq_nil_iff, counts, List.flatMap_eq_nil_iff,
    stageIssues, transitionIssues_eq_nil_iff, shapeIssues_eq_nil_iff]
  constructor
  · intro silent
    rcases silent with ⟨⟨⟨distinct, _, finals⟩, endings⟩, stages⟩
    refine ⟨distinct, endings, finals, ?_, ?_, ?_, ?_, ?_⟩
    · exact fun stage member edge leaves => ((stages stage member).1 edge leaves).1
    · intro stage member
      obtain ⟨edge, single⟩ := List.length_eq_one_iff.1 (stages stage member).2.1
      have fails : edge ∈ stage.failures := single ▸ List.mem_singleton_self edge
      obtain ⟨leaves, error⟩ := mem_failures.1 fails
      exact ⟨edge, single, ((stages stage member).1 edge leaves).2.1 error⟩
    · exact fun stage member edge leaves => ((stages stage member).1 edge leaves).2.2
    · exact fun stage member => (stages stage member).2.2.2
    · exact fun stage member => (stages stage member).2.2.1
  · intro sound
    refine ⟨⟨⟨sound.distinct, fun stage member => sound.stage_id_ne member, sound.finals⟩,
      sound.endings⟩, fun stage member => ⟨fun edge leaves => ⟨?_, ?_, ?_⟩, ?_, ?_, ?_⟩⟩
    · exact sound.targets stage member edge leaves
    · intro error
      obtain ⟨only, single, target⟩ := sound.failures stage member
      have fails := mem_failures.2 ⟨leaves, error⟩
      rw [single, List.mem_singleton] at fails
      rw [fails, target]
    · exact sound.marks stage member edge leaves
    · obtain ⟨only, single, _⟩ := sound.failures stage member
      simp [single]
    · exact sound.fanOuts stage member
    · exact sound.continues stage member

theorem issues_eq (machine : Machine) :
    machine.issues = machine.faults ++ machine.stages.filterMap machine.unreachedIssue? := rfl

theorem severity_of_mem_faults {issue : Issue} (member : issue ∈ machine.faults) :
    issue.severity = .error := by
  simp only [faults, List.mem_append, List.mem_flatMap, List.mem_filterMap] at member
  rcases member with ((repetition | ⟨state, _, found⟩) | ⟨ending, _, found⟩) | ⟨stage, _, reported⟩
  · obtain ⟨_, _, rfl⟩ := List.mem_map.1 repetition
    rfl
  · cases state <;> simp only [finalIssue?] at found <;> split at found <;> cases found <;> rfl
  · unfold endingIssue? at found
    split at found <;> cases found
    rfl
  · simp only [stageIssues, List.mem_append, List.mem_flatMap] at reported
    rcases reported with ⟨edge, _, onEdge⟩ | shape
    · simp only [transitionIssues, List.mem_append] at onEdge
      grind [Issue.severity]
    · simp only [shapeIssues, List.mem_append] at shape
      grind [Issue.severity]

theorem severity_of_unreachedIssue? {stage : Stage} {issue : Issue}
    (found : machine.unreachedIssue? stage = some issue) : issue.severity = .warning := by
  unfold unreachedIssue? at found
  split at found
  · cases found
    rfl
  · cases found

/-- An audit reports no error exactly where the machine is sound. -/
theorem hasErrors_audit_eq_false_iff : machine.audit.hasErrors = false ↔ machine.Sound := by
  rw [audit, Report.hasErrors_ofIssues_eq_false_iff, ← faults_eq_nil_iff, issues_eq]
  constructor
  · intro harmless
    apply List.eq_nil_iff_forall_not_mem.2
    intro issue member
    exact harmless issue (List.mem_append_left _ member) (congrArg some (severity_of_mem_faults member))
  · intro silent issue member
    rw [silent, List.nil_append] at member
    obtain ⟨stage, _, found⟩ := List.mem_filterMap.1 member
    simp [severity_of_unreachedIssue? found]

end Orchestration.Machine
