import Orchestration.Proofs.Rearranged
import Orchestration.Proofs.WellFormed

/-! Machines that correspond: one comes from the other by giving its states new names and by moving states and
transitions. Single findings depend on the order of both, as look-ups stop at the first state with an id, but
whether an audit passes does not. -/

set_option autoImplicit false

namespace Orchestration

def Transition.rename (names : String → String) (edge : Transition) : Transition :=
  { edge with target := names edge.target }

structure Stage.Matches (names : String → String) (stage other : Stage) : Prop where
  id : other.id = names stage.id
  role : other.role = stage.role
  transitions : (stage.transitions.map (Transition.rename names)).Perm other.transitions

inductive State.Matches (names : String → String) : State → State → Prop where
  | stage {stage other : Stage} (same : stage.Matches names other) : Matches names (.stage stage) (.stage other)
  | final (name : String) : Matches names (.final name) (.final (names name))

def Machine.Matches (names : String → String) (machine other : Machine) : Prop :=
  Rearranged (State.Matches names) machine.states other.states

variable {names : String → String}

namespace Stage.Matches

variable {stage other : Stage} (same : stage.Matches names other)
include same

theorem continues : (stage.continues.map (Transition.rename names)).Perm other.continues :=
  perm_filter_of_map_perm same.transitions fun _ => rfl

theorem failures : (stage.failures.map (Transition.rename names)).Perm other.failures :=
  perm_filter_of_map_perm same.transitions fun _ => rfl

theorem continueTargets : (stage.continueTargets.map names).Perm other.continueTargets := by
  have targets := same.continues.map Transition.target
  rw [List.map_map] at targets
  rwa [Stage.continueTargets, Stage.continueTargets, List.map_map]

end Stage.Matches

namespace Machine

variable {machine other : Machine}

theorem firstStage?_eq_some_iff (distinct : machine.ids.Nodup) {id : String} {stage : Stage} :
    machine.firstStage? id = some stage ↔ stage ∈ machine.stages ∧ stage.id = id := by
  constructor
  · exact firstStage?_eq_some
  · rintro ⟨member, rfl⟩
    exact firstStage?_of_mem_stages distinct member

theorem role?_eq_some_iff (distinct : machine.ids.Nodup) {id : String} {role : Role} :
    machine.role? id = some role ↔ machine.Holds role id := by
  constructor
  · exact role?_eq_some
  · rintro ⟨stage, member, rfl, rfl⟩
    exact role?_of_mem_stages distinct member

/-- The goals of branches, without look-ups. -/
theorem mem_goals_iff (distinct : machine.ids.Nodup) {branches : List String} {goal : String} :
    goal ∈ machine.goals branches ↔ ∃ stage ∈ machine.stages,
      stage.id ∈ branches ∧ stage.role = .task ∧ goal ∈ stage.continueTargets := by
  simp only [mem_goals, firstStage?_eq_some_iff distinct]
  constructor
  · rintro ⟨_, leads, stage, ⟨member, rfl⟩, role, onward⟩
    exact ⟨stage, member, leads, role, onward⟩
  · rintro ⟨stage, member, leads, role, onward⟩
    exact ⟨stage.id, leads, stage, ⟨member, rfl⟩, role, onward⟩

namespace Matches

variable (corresponds : machine.Matches names other)
include corresponds

theorem stages : Rearranged (Stage.Matches names) machine.stages other.stages := by
  obtain ⟨changed, pairs, perm⟩ := corresponds
  refine ⟨changed.filterMap State.stage?, List.rel_filterMap ?_ pairs, perm.filterMap _⟩
  intro state renamed same
  cases same with
  | stage same => exact .some same
  | final => exact .none

theorem perm_ids : (machine.ids.map names).Perm other.ids := by
  rw [ids, List.map_map]
  refine corresponds.map_perm fun state renamed same => ?_
  cases same with
  | stage same => exact same.id.symm
  | final => rfl

theorem perm_finals : (machine.finals.map names).Perm other.finals := by
  rw [finals, finals, List.map_filterMap, List.filterMap_eq_flatMap_toList, List.filterMap_eq_flatMap_toList]
  refine corresponds.flatMap_perm fun state renamed same => ?_
  cases same with
  | stage => exact List.Perm.refl []
  | final name => exact List.Perm.refl [names name]

variable (injective : Function.Injective names)
include injective

theorem nodup_ids : other.ids.Nodup ↔ machine.ids.Nodup :=
  corresponds.perm_ids.nodup_iff.symm.trans (List.nodup_map_iff injective)

theorem holds {role : Role} {id : String} : other.Holds role (names id) ↔ machine.Holds role id := by
  refine (corresponds.stages.exists_iff fun stage renamed same => ?_).symm
  rw [same.id, same.role, injective.eq_iff]

theorem mem_goals {branches others : List String} (perm : (branches.map names).Perm others)
    (distinct : machine.ids.Nodup) (goal : String) :
    goal ∈ other.goals others ↔ goal ∈ (machine.goals branches).map names := by
  rw [mem_goals_iff ((corresponds.nodup_ids injective).2 distinct), List.mem_map]
  simp only [mem_goals_iff distinct]
  have reached : (∃ stage ∈ machine.stages, stage.id ∈ branches ∧ stage.role = .task ∧
      goal ∈ stage.continueTargets.map names) ↔ ∃ stage ∈ other.stages, stage.id ∈ others ∧
        stage.role = .task ∧ goal ∈ stage.continueTargets := by
    refine corresponds.stages.exists_iff fun stage renamed same => ?_
    rw [same.id, same.role, mem_of_map_perm perm injective, same.continueTargets.mem_iff]
  rw [← reached]
  constructor
  · rintro ⟨stage, member, leads, role, onward⟩
    obtain ⟨first, goes, rfl⟩ := List.mem_map.1 onward
    exact ⟨first, ⟨stage, member, leads, role, goes⟩, rfl⟩
  · rintro ⟨first, ⟨stage, member, leads, role, goes⟩, rfl⟩
    exact ⟨stage, member, leads, role, List.mem_map_of_mem goes⟩

theorem fansOut {start renamed : Stage} (same : start.Matches names renamed) (distinct : machine.ids.Nodup) :
    other.FansOut renamed ↔ machine.FansOut start := by
  have apart := (corresponds.nodup_ids injective).2 distinct
  have joins : ∀ id, other.role? (names id) = some .batchJoin ↔ machine.role? id = some .batchJoin := by
    intro id
    rw [role?_eq_some_iff apart, role?_eq_some_iff distinct, corresponds.holds injective]
  have tasks : ∀ id, (∀ role, other.role? (names id) = some role → role = .task) ↔
      ∀ role, machine.role? id = some role → role = .task := by
    intro id
    simp only [role?_eq_some_iff apart, role?_eq_some_iff distinct, corresponds.holds injective]
  have goals := corresponds.mem_goals injective same.continueTargets distinct
  apply or_congr
  · refine singleton_iff_of_map_perm same.continues fun edge => ?_
    rw [← joins]
    rfl
  · refine and_congr ?_ (and_congr ?_ (and_congr ?_ (and_congr ?_ ?_)))
    · rw [Ne, Ne, ← List.length_eq_zero_iff, ← same.continues.length_eq, List.length_map, List.length_eq_zero_iff]
    · simp only [← same.continues.mem_iff, List.forall_mem_map]
      rfl
    · rw [← same.continueTargets.nodup_iff, List.nodup_map_iff injective]
    · simp only [← same.continueTargets.mem_iff, List.forall_mem_map, tasks]
    · simp only [goals, List.forall_mem_map, joins, injective.eq_iff]

variable (fixed : ∀ ending : Ending, names ending.id = ending.id)
include fixed

theorem finals_perm_endings :
    other.finals.Perm [Ending.success.id, Ending.failure.id] ↔
      machine.finals.Perm [Ending.success.id, Ending.failure.id] := by
  have endings : [Ending.success.id, Ending.failure.id].map names = [Ending.success.id, Ending.failure.id] := by
    simp [fixed]
  calc other.finals.Perm [Ending.success.id, Ending.failure.id]
      ↔ (machine.finals.map names).Perm ([Ending.success.id, Ending.failure.id].map names) := by
        rw [endings]
        exact ⟨corresponds.perm_finals.trans, corresponds.perm_finals.symm.trans⟩
    _ ↔ machine.finals.Perm [Ending.success.id, Ending.failure.id] := List.map_perm_map_iff injective

/-- Corresponding machines follow the same rules. -/
theorem sound_iff : other.Sound ↔ machine.Sound := by
  have finals := finals_perm_iff.symm.trans <|
    (corresponds.finals_perm_endings injective fixed).trans finals_perm_iff
  have targets : (∀ stage ∈ other.stages, ∀ edge ∈ stage.transitions, edge.target ∈ other.ids) ↔
      ∀ stage ∈ machine.stages, ∀ edge ∈ stage.transitions, edge.target ∈ machine.ids := by
    refine (corresponds.stages.forall_iff fun stage renamed same => ?_).symm
    simp only [← same.transitions.mem_iff, List.forall_mem_map]
    exact forall₂_congr fun edge _ => (mem_of_map_perm corresponds.perm_ids injective).symm
  have failures : (∀ stage ∈ other.stages, ∃ edge, stage.failures = [edge] ∧ edge.target = Ending.failure.id) ↔
      ∀ stage ∈ machine.stages, ∃ edge, stage.failures = [edge] ∧ edge.target = Ending.failure.id := by
    refine (corresponds.stages.forall_iff fun stage renamed same => ?_).symm
    refine (singleton_iff_of_map_perm same.failures fun edge => ?_).symm
    rw [← injective.eq_iff (a := edge.target), fixed]
    rfl
  have marks : (∀ stage ∈ other.stages, ∀ edge ∈ stage.transitions, edge.parallel = true →
        edge.on = .proceed ∧ stage.role = .batchStart) ↔
      ∀ stage ∈ machine.stages, ∀ edge ∈ stage.transitions, edge.parallel = true →
        edge.on = .proceed ∧ stage.role = .batchStart := by
    refine (corresponds.stages.forall_iff fun stage renamed same => ?_).symm
    simp only [← same.transitions.mem_iff, List.forall_mem_map, same.role]
    rfl
  have continues : (∀ stage ∈ other.stages, stage.role ≠ .batchStart → ∃ edge, stage.continues = [edge]) ↔
      ∀ stage ∈ machine.stages, stage.role ≠ .batchStart → ∃ edge, stage.continues = [edge] := by
    refine (corresponds.stages.forall_iff fun stage renamed same => ?_).symm
    simp only [← List.length_eq_one_iff, ← same.continues.length_eq, List.length_map, same.role]
  have fanOuts (distinct : machine.ids.Nodup) :
      (∀ stage ∈ other.stages, stage.role = .batchStart → other.FansOut stage) ↔
        ∀ stage ∈ machine.stages, stage.role = .batchStart → machine.FansOut stage := by
    refine (corresponds.stages.forall_iff fun stage renamed same => ?_).symm
    rw [corresponds.fansOut injective same distinct, same.role]
  constructor
  · intro sound
    have distinct := (corresponds.nodup_ids injective).1 sound.distinct
    obtain ⟨endings, finals⟩ := finals.1 ⟨sound.endings, sound.finals⟩
    exact ⟨distinct, endings, finals, targets.1 sound.targets, failures.1 sound.failures,
      marks.1 sound.marks, continues.1 sound.continues, (fanOuts distinct).1 sound.fanOuts⟩
  · intro sound
    have distinct := (corresponds.nodup_ids injective).2 sound.distinct
    obtain ⟨endings, finals⟩ := finals.2 ⟨sound.endings, sound.finals⟩
    exact ⟨distinct, endings, finals, targets.2 sound.targets, failures.2 sound.failures,
      marks.2 sound.marks, continues.2 sound.continues, (fanOuts sound.distinct).2 sound.fanOuts⟩

theorem hasErrors_audit_eq : other.audit.hasErrors = machine.audit.hasErrors := by
  have clean := hasErrors_audit_eq_false_iff.trans (corresponds.sound_iff injective fixed)
  rw [← hasErrors_audit_eq_false_iff] at clean
  exact Bool.eq_iff_iff.2 (by simpa using not_congr clean)

end Matches

end Machine

/-- The same state, with its transitions in whatever order. -/
inductive State.Shuffles : State → State → Prop where
  | stage {stage : Stage} {transitions : List Transition} (moved : stage.transitions.Perm transitions) :
      Shuffles (.stage stage) (.stage { stage with transitions })
  | final (name : String) : Shuffles (.final name) (.final name)

namespace Machine

variable {machine other : Machine}

/-- The same states in whatever order, each with its transitions in whatever order. -/
def Shuffles (machine other : Machine) : Prop :=
  Rearranged State.Shuffles machine.states other.states

theorem Shuffles.matches (shuffled : machine.Shuffles other) : machine.Matches id other := by
  refine shuffled.mono fun state moved same => ?_
  cases same with
  | stage moved =>
    refine .stage ⟨rfl, rfl, ?_⟩
    have unchanged : Transition.rename id = id := rfl
    rw [unchanged, List.map_id]
    exact moved
  | final name => exact .final name

/-- Whether an audit passes a machine depends neither on the order of its states nor on that of their
transitions, even where ids are used twice, endings are missing or targets are unknown. -/
theorem verdict_of_shuffled (shuffled : machine.Shuffles other) :
    machine.audit.hasErrors = other.audit.hasErrors :=
  (shuffled.matches.hasErrors_audit_eq Function.injective_id fun _ => rfl).symm

/-- A branch to an id that two states share, so that the order of these decides which of them it finds. -/
def contested (edges : List Transition) (first second : Role) : Machine where
  states := [.stage { id := "start", role := .batchStart, transitions := edges },
    .stage { id := "twin", role := first }, .stage { id := "twin", role := second },
    .final "success", .final "failure"]

theorem verdict_contested :
    let machine := contested [⟨.proceed, "twin", true⟩, ⟨.error, "failure", false⟩] .task .batchJoin
    let other := contested [⟨.error, "failure", false⟩, ⟨.proceed, "twin", true⟩] .batchJoin .task
    machine.Shuffles other ∧ machine.audit.errors.length ≠ other.audit.errors.length ∧
      machine.audit.hasErrors = other.audit.hasErrors := by
  intro machine other
  have shuffled : machine.Shuffles other :=
    ⟨_, .cons (.stage (.swap _ _ [])) (.cons (.stage .rfl) (.cons (.stage .rfl)
      (.cons (.final _) (.cons (.final _) .nil)))), .cons _ (.swap _ _ _)⟩
  exact ⟨shuffled, by decide +kernel, verdict_of_shuffled shuffled⟩

end Machine

end Orchestration
