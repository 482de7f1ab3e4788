import Orchestration.Proofs.FanOut

/-! Well-formed machines. What an audit computes from look-ups is put here in terms of the states a
machine holds; the two agree once no marked branch leads to a final state. -/

set_option autoImplicit false

namespace Orchestration.Machine

variable {machine : Machine} {start : Stage}

def finals (machine : Machine) : List String :=
  machine.states.filterMap fun
    | .stage _ => none
    | .final name => some name

def Holds (machine : Machine) (role : Role) (id : String) : Prop :=
  ∃ stage ∈ machine.stages, stage.id = id ∧ stage.role = role

def Skips (machine : Machine) (start : Stage) : Prop :=
  ∃ edge, start.continues = [edge] ∧ edge.parallel = false ∧ machine.Holds .batchJoin edge.target

def Splits (machine : Machine) (start : Stage) : Prop :=
  start.continues ≠ [] ∧ (∀ edge ∈ start.continues, edge.parallel = true) ∧
    start.continueTargets.Nodup ∧
    ∃ join, machine.Holds .batchJoin join ∧ ∀ target ∈ start.continueTargets,
      ∃ task ∈ machine.stages, task.id = target ∧ task.role = .task ∧
        ∀ edge ∈ task.continues, edge.target = join

structure WellFormed (machine : Machine) : Prop where
  distinct : machine.ids.Nodup
  endings : machine.finals.Perm [Ending.success.id, Ending.failure.id]
  targets : ∀ stage ∈ machine.stages, ∀ edge ∈ stage.transitions, edge.target ∈ machine.ids
  failures : ∀ stage ∈ machine.stages,
    ∃ edge, stage.failures = [edge] ∧ edge.target = Ending.failure.id
  marks : ∀ stage ∈ machine.stages, ∀ edge ∈ stage.transitions, edge.parallel = true →
    edge.on = .proceed ∧ stage.role = .batchStart
  continues : ∀ stage ∈ machine.stages, stage.role = .task ∨ stage.role = .batchJoin →
    ∃ edge, stage.continues = [edge]
  fanOuts : ∀ start ∈ machine.stages, start.role = .batchStart →
    machine.Skips start ∨ machine.Splits start

/-- No marked branch leads to a final state. -/
def StaysInside (machine : Machine) : Prop :=
  ∀ start ∈ machine.stages, start.role = .batchStart →
    ∀ edge ∈ start.continues, edge.parallel = true → edge.target ∉ machine.finals

instance : DecidablePred StaysInside := fun machine =>
  inferInstanceAs (Decidable (∀ start ∈ machine.stages, start.role = .batchStart →
    ∀ edge ∈ start.continues, edge.parallel = true → edge.target ∉ machine.finals))

theorem count_finals (machine : Machine) (id : String) :
    machine.finals.count id = machine.states.count (.final id) := by
  rw [finals, List.count, List.countP_filterMap, List.count]
  congr 1
  funext state
  cases state <;> simp

theorem mem_finals {id : String} : id ∈ machine.finals ↔ .final id ∈ machine.states := by
  rw [← List.count_pos_iff, ← List.count_pos_iff, count_finals]

theorem mem_endings {id : String} :
    id ∈ [Ending.success.id, Ending.failure.id] ↔ ∃ ending : Ending, id = ending.id := by
  rw [← isEnding_iff, List.mem_pair]

theorem finals_perm_iff :
    machine.finals.Perm [Ending.success.id, Ending.failure.id] ↔
      (∀ ending : Ending, machine.states.count (.final ending.id) = 1) ∧
        ∀ id, .final id ∈ machine.states → ∃ ending : Ending, id = ending.id := by
  have once : ∀ ending : Ending, [Ending.success.id, Ending.failure.id].count ending.id = 1 := by
    intro ending
    cases ending <;> decide
  simp only [← count_finals, ← mem_finals, ← mem_endings]
  constructor
  · exact fun perm => ⟨fun ending => (perm.count_eq _).trans (once ending), fun id => perm.mem_iff.1⟩
  · rintro ⟨single, others⟩
    rw [List.perm_iff_count]
    intro id
    by_cases named : id ∈ [Ending.success.id, Ending.failure.id]
    · obtain ⟨ending, rfl⟩ := mem_endings.1 named
      rw [single ending, once ending]
    · rw [List.count_eq_zero_of_not_mem named,
        List.count_eq_zero_of_not_mem fun member => named (others id member)]

theorem splits_of_dispatches (branches : start.continues ≠ [])
    (marked : ∀ edge ∈ start.continues, edge.parallel = true)
    (dispatches : machine.Dispatches start) : machine.Splits start := by
  obtain ⟨_, join, stored, joinRole, _, _, fans, _⟩ := dispatches
  obtain ⟨edge, leaves⟩ := List.exists_mem_of_ne_nil _ branches
  obtain ⟨once, _, tasks⟩ := fans ⟨edge, leaves, marked edge leaves⟩
  refine ⟨branches, marked, once, join.id, ⟨join, stored, rfl, joinRole⟩, ?_⟩
  intro target leads
  obtain ⟨task, member, named, taskRole, targets⟩ := tasks target leads
  refine ⟨task, member, named, taskRole, fun next onward => ?_⟩
  have goal : next.target ∈ task.continueTargets := mem_continueTargets.2 ⟨next, onward, rfl⟩
  rw [targets] at goal
  exact List.mem_singleton.1 goal

theorem Sound.wellFormed (sound : machine.Sound) (stays : machine.StaysInside) :
    machine.WellFormed where
  distinct := sound.distinct
  endings := finals_perm_iff.2 ⟨sound.endings, sound.finals⟩
  targets := sound.targets
  failures := sound.failures
  marks := sound.marks
  continues stage member role := sound.continues stage member fun batch => by simp [batch] at role
  fanOuts start member role := by
    rcases sound.fanOuts start member role with
      ⟨edge, single, unmarked, joins⟩ | ⟨branches, marked, once, tasks, converge⟩
    · exact .inl ⟨edge, single, unmarked, role?_eq_some joins⟩
    · have inside : ∀ edge ∈ start.continues, .final edge.target ∉ machine.states :=
        fun edge leaves => mem_finals.not.1 (stays start member role edge leaves (marked edge leaves))
      have dispatches := dispatches_of_marked sound member role branches marked once tasks converge inside
      exact .inr (splits_of_dispatches branches marked dispatches)

namespace WellFormed

theorem fansOut_of_skips (wellFormed : machine.WellFormed) (skips : machine.Skips start) :
    machine.FansOut start := by
  obtain ⟨edge, single, unmarked, join, stored, named, joinRole⟩ := skips
  exact .inl ⟨edge, single, unmarked, by
    rw [← named, role?_of_mem_stages wellFormed.distinct stored, joinRole]⟩

theorem fansOut_of_splits (wellFormed : machine.WellFormed) (splits : machine.Splits start) :
    machine.FansOut start := by
  obtain ⟨branches, marked, once, join, ⟨stage, stored, named, joinRole⟩, tasks⟩ := splits
  -- look-ups find the task itself, as no other state has its id
  have goal : ∀ goal ∈ machine.goals start.continueTargets, goal = join := by
    intro goal reached
    obtain ⟨target, leads, found, first, -, onward⟩ := mem_goals.1 reached
    obtain ⟨task, member, rfl, -, converge⟩ := tasks target leads
    rw [firstStage?_of_mem_stages wellFormed.distinct member, Option.some.injEq] at first
    subst first
    obtain ⟨edge, leaves, rfl⟩ := mem_continueTargets.1 onward
    exact converge edge leaves
  refine .inr ⟨branches, marked, once, ?_, ?_⟩
  · intro target leads role known
    obtain ⟨task, member, rfl, taskRole, -⟩ := tasks target leads
    rw [role?_of_mem_stages wellFormed.distinct member, taskRole, Option.some.injEq] at known
    exact known.symm
  · intro one reached
    refine ⟨?_, fun other also => (goal other also).trans (goal one reached).symm⟩
    rw [goal one reached, ← named, role?_of_mem_stages wellFormed.distinct stored, joinRole]

theorem sound (wellFormed : machine.WellFormed) : machine.Sound where
  distinct := wellFormed.distinct
  endings := (finals_perm_iff.1 wellFormed.endings).1
  finals := (finals_perm_iff.1 wellFormed.endings).2
  targets := wellFormed.targets
  failures := wellFormed.failures
  marks := wellFormed.marks
  continues stage member role := wellFormed.continues stage member (by
    cases kind : stage.role with
    | task => exact .inl rfl
    | batchJoin => exact .inr rfl
    | batchStart => exact absurd kind role)
  fanOuts start member role := by
    rcases wellFormed.fanOuts start member role with skips | splits
    · exact wellFormed.fansOut_of_skips skips
    · exact wellFormed.fansOut_of_splits splits

theorem staysInside (wellFormed : machine.WellFormed) : machine.StaysInside := by
  intro start member role edge leaves marked final
  rcases wellFormed.fanOuts start member role with
    ⟨only, single, unmarked, _⟩ | ⟨_, _, _, join, _, tasks⟩
  · rw [single, List.mem_singleton] at leaves
    rw [leaves, unmarked] at marked
    cases marked
  · obtain ⟨task, stored, named, _⟩ := tasks edge.target (mem_continueTargets.2 ⟨edge, leaves, rfl⟩)
    -- the branch would be a task and a final state under one id
    have same := List.inj_on_of_nodup_map wellFormed.distinct (mem_stages.1 stored)
      (mem_finals.1 final) named
    cases same

end WellFormed

/-- Branches to final states are all that an audit misses. -/
theorem wellFormed_iff_sound_and_staysInside :
    machine.WellFormed ↔ machine.Sound ∧ machine.StaysInside := by
  constructor
  · exact fun wellFormed => ⟨wellFormed.sound, wellFormed.staysInside⟩
  · rintro ⟨sound, stays⟩
    exact sound.wellFormed stays

/-- Where no marked branch leads to a final state, an audit passes exactly the well-formed machines. -/
theorem audit_passes_iff_wellFormed (stays : machine.StaysInside) :
    machine.audit.hasErrors = false ↔ machine.WellFormed := by
  rw [hasErrors_audit_eq_false_iff, wellFormed_iff_sound_and_staysInside]
  exact (and_iff_left stays).symm

theorem wellFormed_pairOfBranches :
    (pairOfBranches "right").StaysInside ∧ (pairOfBranches "right").WellFormed ∧
      (pairOfBranches "join").StaysInside ∧ ¬ (pairOfBranches "join").WellFormed := by
  have right : (pairOfBranches "right").StaysInside := by decide +kernel
  have join : (pairOfBranches "join").StaysInside := by decide +kernel
  refine ⟨right, (audit_passes_iff_wellFormed right).1 (by decide +kernel), join, fun wellFormed => ?_⟩
  have clean := (audit_passes_iff_wellFormed join).2 wellFormed
  have flagged : (pairOfBranches "join").audit.hasErrors = true := by decide +kernel
  cases clean.symm.trans flagged

end Orchestration.Machine
