import Orchestration.Proofs.Categories
import Orchestration.Proofs.WellFormed

/-! What an audit reports of a machine, however malformed: in every category one finding for each offence,
where several defects of one edge or of one state are as many offences. -/

set_option autoImplicit false

namespace Orchestration

theorem flatMap_ite_singleton {α β : Type} (entries : List α) (offends : α → Prop) [DecidablePred offends]
    (made : α → β) :
    (entries.flatMap fun entry => if offends entry then [made entry] else []) =
      (entries.filter (offends ·)).map made := by
  rw [List.map_eq_flatMap, flatMap_filter]
  simp only [decide_eq_true_eq]

namespace Machine

variable {machine : Machine}

def edges (machine : Machine) : List (Stage × Transition) :=
  machine.stages.flatMap fun stage => stage.transitions.map (stage, ·)

theorem flatMap_edges {α : Type} (machine : Machine) (check : Stage → Transition → List α) :
    (machine.edges.flatMap fun edge => check edge.1 edge.2) =
      machine.stages.flatMap fun stage => stage.transitions.flatMap (check stage) := by
  simp only [edges, List.flatMap_assoc, List.flatMap_map]

theorem map_target_edges (machine : Machine) : (machine.edges.map fun edge => edge.2.target) = machine.targets := by
  simp only [edges, targets, List.map_flatMap, List.map_map, Function.comp_def]

theorem findings_audit (machine : Machine) :
    machine.audit.findings = machine.faults.map (⟨.error, ·⟩) ++
      (machine.stages.filterMap machine.unreachedIssue?).map (⟨.warning, ·⟩) := by
  have errors : (Report.ofIssues (some ·.severity) machine.faults).findings =
      machine.faults.map (⟨.error, ·⟩) :=
    Report.findings_ofIssues_of_graded fun issue member => congrArg some (severity_of_mem_faults member)
  have warnings : (Report.ofIssues (some ·.severity) (machine.stages.filterMap machine.unreachedIssue?)).findings =
      (machine.stages.filterMap machine.unreachedIssue?).map (⟨.warning, ·⟩) := by
    apply Report.findings_ofIssues_of_graded
    intro issue member
    obtain ⟨stage, _, found⟩ := List.mem_filterMap.1 member
    exact congrArg some (severity_of_unreachedIssue? found)
  rw [audit, issues_eq, ← errors, ← warnings]
  exact List.filterMap_append

theorem errors_audit (machine : Machine) : machine.audit.errors = machine.faults.map (⟨.error, ·⟩) := by
  rw [Report.errors, findings_audit]
  simp [List.filter_map, Function.comp_def]

theorem warnings_audit (machine : Machine) :
    machine.audit.warnings = (machine.stages.filterMap machine.unreachedIssue?).map (⟨.warning, ·⟩) := by
  rw [Report.warnings, findings_audit]
  simp [List.filter_map, Function.comp_def]

/-- The errors of a category are made of the faults of that category. -/
theorem filter_errors_audit (machine : Machine) (category : Category) :
    machine.audit.errors.filter (·.issue.category = category) =
      (machine.faults.filter (·.category = category)).map (⟨.error, ·⟩) := by
  rw [errors_audit, List.filter_map]
  rfl

def edgeIssuesIn (machine : Machine) (stage : Stage) (edge : Transition) : Category → List Issue
  | .unknownTarget =>
    if edge.target ∉ machine.ids then [.unknownTarget stage.id edge.on edge.target] else []
  | .errorRouting =>
    if edge.on = .error ∧ edge.target ≠ Ending.failure.id then [.errorTarget stage.id edge.target] else []
  | .parallelMisuse =>
    if edge.parallel ∧ (edge.on = .error ∨ stage.role ≠ .batchStart) then [.parallelEdge stage.id edge.on] else []
  | _ => []

theorem filter_transitionIssues (stage : Stage) (edge : Transition) (category : Category) :
    (machine.transitionIssues stage edge).filter (·.category = category) =
      machine.edgeIssuesIn stage edge category := by
  simp only [transitionIssues, List.filter_append, apply_ite (List.filter _)]
  cases category <;> simp [edgeIssuesIn, Issue.category]

theorem category_of_mem_shapeIssues {stage : Stage} {issue : Issue} (member : issue ∈ machine.shapeIssues stage) :
    issue.category = .errorRouting ∨ issue.category = .transitionShape := by
  simp only [shapeIssues, List.mem_append] at member
  rcases member with routing | shape
  · split at routing
    · cases routing
    · exact .inl (List.mem_singleton.1 routing ▸ rfl)
  · split at shape
    · obtain ⟨_, _, rfl⟩ := List.mem_map.1 shape
      exact .inr rfl
    · split at shape
      · cases shape
      · exact .inr (List.mem_singleton.1 shape ▸ rfl)

theorem filter_shapeIssues_errorRouting (stage : Stage) :
    (machine.shapeIssues stage).filter (·.category = .errorRouting) =
      if stage.failures.length ≠ 1 then [.errorCount stage.id stage.failures.length] else [] := by
  simp only [shapeIssues, List.filter_append, apply_ite (List.filter _)]
  simp [Issue.category, List.filter_map, Function.comp_def]

theorem filter_shapeIssues {category : Category} (routing : category ≠ .errorRouting)
    (shape : category ≠ .transitionShape) (stage : Stage) :
    (machine.shapeIssues stage).filter (·.category = category) = [] := by
  apply List.filter_eq_nil_iff.2
  intro issue member
  rcases category_of_mem_shapeIssues member with same | same <;> simp [same, routing.symm, shape.symm]

theorem finalIssues_perm (machine : Machine) :
    (machine.states.filterMap finalIssue?).Perm
      ((machine.stages.filter fun stage => stage.id = Ending.success.id ∨ stage.id = Ending.failure.id).map
          (.notFinal ·.id) ++
        (machine.finals.filter fun id => id ≠ Ending.success.id ∧ id ≠ Ending.failure.id).map .strayFinal) := by
  obtain ⟨states⟩ := machine
  simp only [stages, finals]
  induction states with
  | nil => exact List.Perm.refl []
  | cons state rest ih =>
    cases state with
    | stage stage =>
      by_cases named : stage.id = Ending.success.id ∨ stage.id = Ending.failure.id
      · simpa [finalIssue?, State.stage?, named] using ih
      · simpa [finalIssue?, State.stage?, named] using ih
    | final id =>
      by_cases named : id = Ending.success.id ∨ id = Ending.failure.id
      · have known : ¬ (id ≠ Ending.success.id ∧ id ≠ Ending.failure.id) := by tauto
        simpa [List.filterMap_cons, finalIssue?, State.stage?, named, known] using ih
      · have stray : id ≠ Ending.success.id ∧ id ≠ Ending.failure.id := by tauto
        have moved := (ih.cons (.strayFinal id)).trans List.perm_middle.symm
        simpa [List.filterMap_cons, finalIssue?, State.stage?, named, stray] using moved

theorem endingIssue?_eq (machine : Machine) (ending : Ending) :
    machine.endingIssue? ending = if machine.finals.count ending.id ≠ 1 then
      some (.finalCount ending (machine.finals.count ending.id)) else none := by
  rw [endingIssue?, finalCount, ← count_finals, ite_not]

theorem endingIssues_eq (machine : Machine) :
    [Ending.success, .failure].filterMap machine.endingIssue? =
      ([Ending.success, .failure].filter fun ending => machine.finals.count ending.id ≠ 1).map fun ending =>
        .finalCount ending (machine.finals.count ending.id) := by
  rw [← List.filterMap_eq_map, List.filterMap_filter]
  apply List.filterMap_congr
  intro ending _
  simp only [endingIssue?_eq, decide_eq_true_eq, Function.comp_apply]

theorem category_of_mem_stageIssues {stage : Stage} {issue : Issue} (member : issue ∈ machine.stageIssues stage) :
    issue.category ∈ [Category.unknownTarget, .errorRouting, .parallelMisuse, .transitionShape] := by
  simp only [stageIssues, List.mem_append, List.mem_flatMap] at member
  rcases member with ⟨edge, _, onEdge⟩ | shape
  · simp only [transitionIssues, List.mem_append] at onEdge
    grind [Issue.category]
  · rcases category_of_mem_shapeIssues shape with same | same <;> simp [same]

theorem category_of_mem_repeatedIssues {issue : Issue} (member : issue ∈ machine.repeatedIssues) :
    issue.category = .duplicateStateId := by
  obtain ⟨_, _, rfl⟩ := List.mem_map.1 member
  rfl

theorem category_of_mem_finalIssues {issue : Issue}
    (member : issue ∈ machine.states.filterMap finalIssue? ++ [.success, .failure].filterMap machine.endingIssue?) :
    issue.category = .finalStates := by
  rcases List.mem_append.1 member with states | counts
  · rcases List.mem_append.1 (machine.finalIssues_perm.mem_iff.1 states) with named | stray
    · obtain ⟨_, _, rfl⟩ := List.mem_map.1 named
      rfl
    · obtain ⟨_, _, rfl⟩ := List.mem_map.1 stray
      rfl
  · rw [endingIssues_eq] at counts
    obtain ⟨_, _, rfl⟩ := List.mem_map.1 counts
    rfl

theorem faults_eq (machine : Machine) :
    machine.faults = machine.repeatedIssues ++
      (machine.states.filterMap finalIssue? ++ [.success, .failure].filterMap machine.endingIssue?) ++
      machine.stages.flatMap machine.stageIssues := by
  rw [faults, List.append_assoc machine.repeatedIssues]

theorem category_of_mem_faults {issue : Issue} (member : issue ∈ machine.faults) :
    issue.category ∈ [Category.duplicateStateId, .finalStates, .unknownTarget, .errorRouting, .parallelMisuse,
      .transitionShape] := by
  rw [faults_eq, List.mem_append, List.mem_append] at member
  rcases member with (repeated | finals) | stages
  · simp [category_of_mem_repeatedIssues repeated]
  · simp [category_of_mem_finalIssues finals]
  · obtain ⟨stage, _, found⟩ := List.mem_flatMap.1 stages
    exact List.mem_cons_of_mem _ (List.mem_cons_of_mem _ (category_of_mem_stageIssues found))

/-- The faults of one category, check by check. -/
theorem filter_faults (machine : Machine) (category : Category) :
    machine.faults.filter (·.category = category) =
      (if .duplicateStateId = category then machine.repeatedIssues else []) ++
        (if .finalStates = category then
          machine.states.filterMap finalIssue? ++ [.success, .failure].filterMap machine.endingIssue? else []) ++
        machine.stages.flatMap fun stage => (machine.stageIssues stage).filter (·.category = category) := by
  rw [faults_eq, List.filter_append, List.filter_append, List.filter_flatMap]
  congr 2
  · exact Report.filter_of_category (fun _ => category_of_mem_repeatedIssues) category
  · exact Report.filter_of_category (fun _ => category_of_mem_finalIssues) category

theorem filter_stageIssues (stage : Stage) (category : Category) :
    (machine.stageIssues stage).filter (·.category = category) =
      (stage.transitions.flatMap fun edge => (machine.transitionIssues stage edge).filter (·.category = category)) ++
        (machine.shapeIssues stage).filter (·.category = category) := by
  rw [stageIssues, List.filter_append, List.filter_flatMap]

theorem filter_stageIssues_eq_nil {category : Category}
    (apart : category ∉ [Category.unknownTarget, .errorRouting, .parallelMisuse, .transitionShape])
    (stage : Stage) :
    (machine.stageIssues stage).filter (·.category = category) = [] := by
  apply List.filter_eq_nil_iff.2
  intro issue member same
  exact apart (of_decide_eq_true same ▸ category_of_mem_stageIssues member)

theorem filter_faults_duplicateStateId (machine : Machine) :
    machine.faults.filter (·.category = .duplicateStateId) =
      ((Ids.ascending machine.ids).filter fun id => 1 < machine.ids.count id).map fun id =>
        .repeatedState id (machine.ids.count id) := by
  have own : machine.faults.filter (·.category = .duplicateStateId) = machine.repeatedIssues := by
    simp [filter_faults, filter_stageIssues_eq_nil]
  rw [own, repeatedIssues, Ids.repeated_eq, List.map_map]
  rfl

theorem filter_faults_finalStates (machine : Machine) :
    (machine.faults.filter (·.category = .finalStates)).Perm
      (((machine.stages.filter fun stage => stage.id = Ending.success.id ∨ stage.id = Ending.failure.id).map
          (.notFinal ·.id)) ++
        (machine.finals.filter fun id => id ≠ Ending.success.id ∧ id ≠ Ending.failure.id).map .strayFinal ++
        ([Ending.success, .failure].filter fun ending => machine.finals.count ending.id ≠ 1).map fun ending =>
          .finalCount ending (machine.finals.count ending.id)) := by
  have own : machine.faults.filter (·.category = .finalStates) =
      machine.states.filterMap finalIssue? ++ [.success, .failure].filterMap machine.endingIssue? := by
    simp [filter_faults, filter_stageIssues_eq_nil]
  rw [own, endingIssues_eq]
  exact machine.finalIssues_perm.append_right _

theorem filter_faults_unknownTarget (machine : Machine) :
    machine.faults.filter (·.category = .unknownTarget) =
      (machine.edges.filter fun edge => edge.2.target ∉ machine.ids).map fun edge =>
        .unknownTarget edge.1.id edge.2.on edge.2.target := by
  simp only [filter_faults, filter_stageIssues, filter_transitionIssues, edgeIssuesIn,
    filter_shapeIssues (by decide : Category.unknownTarget ≠ .errorRouting)
      (by decide : Category.unknownTarget ≠ .transitionShape), List.append_nil]
  rw [← flatMap_edges, ← flatMap_ite_singleton]
  rfl

theorem filter_faults_parallelMisuse (machine : Machine) :
    machine.faults.filter (·.category = .parallelMisuse) =
      (machine.edges.filter fun edge =>
          edge.2.parallel ∧ (edge.2.on = .error ∨ edge.1.role ≠ .batchStart)).map fun edge =>
        .parallelEdge edge.1.id edge.2.on := by
  simp only [filter_faults, filter_stageIssues, filter_transitionIssues, edgeIssuesIn,
    filter_shapeIssues (by decide : Category.parallelMisuse ≠ .errorRouting)
      (by decide : Category.parallelMisuse ≠ .transitionShape), List.append_nil]
  rw [← flatMap_edges, ← flatMap_ite_singleton]
  rfl

theorem filter_faults_errorRouting (machine : Machine) :
    (machine.faults.filter (·.category = .errorRouting)).Perm
      (((machine.edges.filter fun edge => edge.2.on = .error ∧ edge.2.target ≠ Ending.failure.id).map fun edge =>
          .errorTarget edge.1.id edge.2.target) ++
        (machine.stages.filter (·.failures.length ≠ 1)).map fun stage =>
          .errorCount stage.id stage.failures.length) := by
  simp only [filter_faults, filter_stageIssues, filter_transitionIssues, edgeIssuesIn,
    filter_shapeIssues_errorRouting]
  rw [← flatMap_ite_singleton, ← flatMap_ite_singleton, flatMap_edges machine fun stage edge =>
    if edge.on = .error ∧ edge.target ≠ Ending.failure.id then [Issue.errorTarget stage.id edge.target] else []]
  exact (List.flatMap_append_perm _ _ _).symm

/-- The findings that a machine calls for: in each category as many as there are offences, each naming its
own, and no others. -/
structure Itemises (machine : Machine) (report : Report Issue) : Prop where
  repeated : ∃ ids : List String, ids.Pairwise (· < ·) ∧ (∀ id, id ∈ ids ↔ 1 < machine.ids.count id) ∧
    report.errors.filter (·.issue.category = .duplicateStateId) =
      ids.map fun id => ⟨.error, .repeatedState id (machine.ids.count id)⟩
  targets : report.errors.filter (·.issue.category = .unknownTarget) =
    (machine.edges.filter fun edge => edge.2.target ∉ machine.ids).map fun edge =>
      ⟨.error, .unknownTarget edge.1.id edge.2.on edge.2.target⟩
  routing : (report.errors.filter (·.issue.category = .errorRouting)).Perm
    (((machine.edges.filter fun edge => edge.2.on = .error ∧ edge.2.target ≠ Ending.failure.id).map fun edge =>
        ⟨.error, .errorTarget edge.1.id edge.2.target⟩) ++
      (machine.stages.filter (·.failures.length ≠ 1)).map fun stage =>
        ⟨.error, .errorCount stage.id stage.failures.length⟩)
  marks : report.errors.filter (·.issue.category = .parallelMisuse) =
    (machine.edges.filter fun edge =>
        edge.2.parallel ∧ (edge.2.on = .error ∨ edge.1.role ≠ .batchStart)).map fun edge =>
      ⟨.error, .parallelEdge edge.1.id edge.2.on⟩
  finals : (report.errors.filter (·.issue.category = .finalStates)).Perm
    (((machine.stages.filter fun stage => stage.id = Ending.success.id ∨ stage.id = Ending.failure.id).map
        fun stage => ⟨.error, .notFinal stage.id⟩) ++
      ((machine.finals.filter fun id => id ≠ Ending.success.id ∧ id ≠ Ending.failure.id).map
        fun id => ⟨.error, .strayFinal id⟩) ++
      ([Ending.success, .failure].filter fun ending => machine.finals.count ending.id ≠ 1).map
        fun ending => ⟨.error, .finalCount ending (machine.finals.count ending.id)⟩)
  others : ∀ finding ∈ report.errors, finding.issue.category ∈ [Category.duplicateStateId, .finalStates,
    .unknownTarget, .errorRouting, .parallelMisuse, .transitionShape]
  warnings : report.warnings =
    (machine.stages.filter fun stage =>
        stage.role = .batchJoin ∧ ∀ edge ∈ machine.edges, edge.2.target ≠ stage.id).map fun stage =>
      ⟨.warning, .unreachedJoin stage.id⟩

theorem unreachedIssues_eq (machine : Machine) :
    machine.stages.filterMap machine.unreachedIssue? =
      (machine.stages.filter fun stage =>
          stage.role = .batchJoin ∧ ∀ edge ∈ machine.edges, edge.2.target ≠ stage.id).map fun stage =>
        .unreachedJoin stage.id := by
  rw [← List.filterMap_eq_map, List.filterMap_filter]
  apply List.filterMap_congr
  intro stage _
  have reached : stage.id ∉ machine.targets ↔ ∀ edge ∈ machine.edges, edge.2.target ≠ stage.id := by
    simp [← map_target_edges]
  simp only [unreachedIssue?, reached, decide_eq_true_eq, Function.comp_apply]

/-- Whatever list of states is audited, the report is the one that the list calls for. -/
theorem itemises_audit (machine : Machine) : machine.Itemises machine.audit where
  repeated := by
    refine ⟨(Ids.ascending machine.ids).filter fun id => 1 < machine.ids.count id,
      (Ids.pairwise_ascending _).filter _, fun id => ?_, ?_⟩
    · rw [List.mem_filter, Ids.mem_ascending, decide_eq_true_eq]
      exact and_iff_right_of_imp fun many => List.count_pos_iff.1 (by omega)
    · rw [filter_errors_audit, filter_faults_duplicateStateId, List.map_map]
      rfl
  targets := by
    rw [filter_errors_audit, filter_faults_unknownTarget, List.map_map]
    rfl
  routing := by
    rw [filter_errors_audit]
    have perm := machine.filter_faults_errorRouting.map (Finding.mk .error)
    rwa [List.map_append, List.map_map, List.map_map] at perm
  marks := by
    rw [filter_errors_audit, filter_faults_parallelMisuse, List.map_map]
    rfl
  finals := by
    rw [filter_errors_audit]
    have perm := machine.filter_faults_finalStates.map (Finding.mk .error)
    rwa [List.map_append, List.map_append, List.map_map, List.map_map, List.map_map] at perm
  others finding member := by
    rw [errors_audit] at member
    obtain ⟨issue, fault, rfl⟩ := List.mem_map.1 member
    exact category_of_mem_faults fault
  warnings := by
    rw [warnings_audit, unreachedIssues_eq, List.map_map]
    rfl

/-- A task under the id of an ending, whose only edge is a marked error edge to nowhere, and a join that is
never reached: each defect is reported, and reported once. -/
example :
    let astray : Stage := { id := "failure", role := .task, transitions := [⟨.error, "x", true⟩] }
    let join : Stage := { id := "join", role := .batchJoin, transitions := [⟨.proceed, "failure", false⟩] }
    let machine : Machine := ⟨[.stage astray, .stage join, .final "success", .final "stop"]⟩
    machine.audit.items.map (·.issue) = [.notFinal "failure", .strayFinal "stop", .finalCount .failure 0,
      .unknownTarget "failure" .error "x", .errorTarget "failure" "x", .parallelEdge "failure" .error,
      .continueCount "failure" 0, .errorCount "join" 0, .unreachedJoin "join"] := by
  decide +kernel

end Machine

end Orchestration
