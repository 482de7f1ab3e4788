import Orchestration.Proofs.Acceptance

/-! Categories of a review's issues. Every check but that of references raises issues of one category
only, and no two of these checks share one, so the issues of a category are those of its check. -/

set_option autoImplicit false

namespace Orchestration

theorem flatMap_filter {α β : Type} (entries : List α) (keep : α → Bool) (made : α → List β) :
    (entries.filter keep).flatMap made = entries.flatMap fun entry => if keep entry then made entry else [] := by
  induction entries with
  | nil => rfl
  | cons entry rest ih => by_cases kept : keep entry <;> simp [kept, ih]

namespace Report

variable {ι : Type} [Reportable ι]

def inCategory (report : Report ι) (category : Category) : List (Finding ι) :=
  report.findings.filter (Reportable.category ·.issue = category)

theorem count_eq_length_inCategory (report : Report ι) (category : Category) :
    report.count category = (report.inCategory category).length :=
  List.countP_eq_length_filter

/-- Of issues that are all of one category, the issues of a category are all or none. -/
theorem filter_of_category {issues : List ι} {own : Category}
    (about : ∀ issue ∈ issues, Reportable.category issue = own) (category : Category) :
    issues.filter (Reportable.category · = category) = if own = category then issues else [] := by
  split
  next same => exact List.filter_eq_self.2 fun issue member => by simp [about issue member, same]
  next other => exact List.filter_eq_nil_iff.2 fun issue member => by simp [about issue member, other]

omit [Reportable ι] in
theorem filter_errors (report : Report ι) (keep : Finding ι → Bool) :
    report.errors.filter keep = (report.findings.filter keep).filter (·.severity = .error) :=
  List.filter_comm ..

omit [Reportable ι] in
theorem filter_warnings (report : Report ι) (keep : Finding ι → Bool) :
    report.warnings.filter keep = (report.findings.filter keep).filter (·.severity = .warning) :=
  List.filter_comm ..

/-- Findings of a category that all weigh the same are listed in the order of the report, as errors come
before warnings only where there are both. -/
theorem filter_category_items {report : Report ι} {category : Category} {severity : Severity} {issues : List ι}
    (alike : report.inCategory category = issues.map (⟨severity, ·⟩)) :
    report.items.filter (Reportable.category ·.issue = category) = issues.map (⟨severity, ·⟩) := by
  rw [items, List.filter_append, filter_errors, filter_warnings, ← inCategory, alike]
  cases severity <;> simp [List.filter_map, Function.comp_def]

omit [Reportable ι] in
/-- Issues that are all graded alike make one finding each. -/
theorem findings_ofIssues_of_graded {grade : ι → Option Severity} {issues : List ι} {severity : Severity}
    (graded : ∀ issue ∈ issues, grade issue = some severity) :
    (ofIssues grade issues).findings = issues.map (⟨severity, ·⟩) := by
  rw [ofIssues, ← List.filterMap_eq_map]
  exact List.filterMap_congr fun issue member => by rw [graded issue member]; rfl

omit [Reportable ι] in
theorem findings_ofIssues_map {α : Type} (grade : ι → Option Severity) {issue : α → ι} {severity : Severity}
    (graded : ∀ source, grade (issue source) = some severity) (sources : List α) :
    (ofIssues grade (sources.map issue)).findings = sources.map fun source => ⟨severity, issue source⟩ := by
  rw [findings_ofIssues_of_graded (List.forall_mem_map.2 fun source _ => graded source), List.map_map]
  rfl

/-- Grading leaves the issues of a category in their order. -/
theorem inCategory_ofIssues (grade : ι → Option Severity) (issues : List ι) (category : Category) :
    (ofIssues grade issues).inCategory category =
      (ofIssues grade (issues.filter (Reportable.category · = category))).findings := by
  simp only [inCategory, ofIssues, List.filter_filterMap, List.filterMap_filter]
  apply List.filterMap_congr
  intro issue _
  cases grade issue <;> simp [Option.filter]

end Report

namespace Partition

variable {graph : Graph} {partition : Partition}

def About (category : Category) (issues : List Issue) : Prop :=
  ∀ issue ∈ issues, issue.category = category

theorem About.map {α : Type} {category : Category} {issue : α → Issue}
    (each : ∀ source, (issue source).category = category) (sources : List α) :
    About category (sources.map issue) := by
  intro made member
  obtain ⟨source, _, rfl⟩ := List.mem_map.1 member
  exact each source

theorem About.filterMap {α : Type} {category : Category} {check : α → Option Issue}
    (each : ∀ source issue, check source = some issue → issue.category = category) (sources : List α) :
    About category (sources.filterMap check) := by
  intro issue member
  obtain ⟨source, _, found⟩ := List.mem_filterMap.1 member
  exact each source issue found

theorem About.flatMap {α : Type} {category : Category} {check : α → List Issue}
    (each : ∀ source, About category (check source)) (sources : List α) :
    About category (sources.flatMap check) := by
  intro issue member
  obtain ⟨source, _, found⟩ := List.mem_flatMap.1 member
  exact each source issue found

theorem About.append {category : Category} {first second : List Issue} (one : About category first)
    (other : About category second) : About category (first ++ second) :=
  List.forall_mem_append.2 ⟨one, other⟩

theorem About.filter {own : Category} {issues : List Issue} (about : About own issues) (category : Category) :
    issues.filter (·.category = category) = if own = category then issues else [] :=
  Report.filter_of_category about category

theorem about_cycleIssues (graph : Graph) : About .cycle (cycleIssues graph) := by
  intro issue member
  obtain ⟨nodes, _, rfl⟩ := Option.map_eq_some_iff.1 (Option.mem_toList.1 member)
  rfl

theorem about_unknownIssues (graph : Graph) (partition : Partition) :
    About .unknownNode (unknownIssues graph partition) := by
  rw [unknownIssues_eq]
  apply About.map
  exact fun _ => rfl

theorem about_repeatedNodeIssues (graph : Graph) (partition : Partition) :
    About .duplicateNode (repeatedNodeIssues graph partition) := by
  apply About.map
  exact fun _ => rfl

theorem about_uncoveredIssues (graph : Graph) (partition : Partition) :
    About .missingNode (uncoveredIssues graph partition) := by
  apply About.map
  exact fun _ => rfl

theorem about_entryIssues (partition : Partition) : About .duplicatePartitionId (entryIssues partition) := by
  apply About.append
  · apply About.map
    exact fun _ => rfl
  · apply About.map
    exact fun _ => rfl

theorem about_joinIssues (regions : List Region) : About .joinMismatch (regions.filterMap joinIssue?) :=
  About.filterMap (fun _ _ found => joinIssue?_eq_some found ▸ rfl) regions

theorem about_chainOrderIssues (graph : Graph) (chains : List Chain) :
    About .chainOrder (chains.flatMap (chainOrderIssues graph)) := by
  refine About.flatMap (fun chain => About.filterMap (fun pair issue found => ?_) _) chains
  obtain ⟨_, _, _, _, _, rfl⟩ := chainOrderIssue?_eq_some_iff.1 found
  rfl

theorem about_batchOrderIssues (graph : Graph) (regions : List Region) :
    About .batchOrder (regions.flatMap (batchOrderIssues graph)) := by
  refine About.flatMap (fun region => About.flatMap (fun numbered => About.flatMap (fun node => ?_) _) _) regions
  split
  · refine About.filterMap (fun dependency issue found => ?_) _
    obtain ⟨_, _, _, rfl⟩ := batchOrderIssue?_eq_some_iff.1 found
    rfl
  · exact fun _ member => absurd member List.not_mem_nil

theorem about_emptyChainIssues (chains : List Chain) :
    About .emptyPartitionEntry (chains.filterMap emptyChainIssue?) := by
  refine About.filterMap (fun chain issue found => ?_) chains
  simp only [emptyChainIssue?] at found
  split at found
  · cases found
    rfl
  · cases found

theorem about_emptyBatchIssues (regions : List Region) :
    About .emptyPartitionEntry (regions.flatMap emptyBatchIssues) := by
  refine About.flatMap (fun region => ?_) regions
  unfold emptyBatchIssues
  split
  · intro issue member
    rw [List.mem_singleton.1 member]
    rfl
  · apply About.map
    exact fun _ => rfl

theorem about_dangling (graph : Graph) (site : Site) (ids : List String) :
    About .danglingReference (dangling graph site ids) := by
  apply About.map
  exact fun _ => rfl

theorem about_adjacencyIssues (graph : Graph) (direction : Direction) :
    About .danglingReference (adjacencyIssues graph direction) := by
  apply About.flatMap
  exact fun _ => (about_dangling graph _ _).append (about_dangling graph _ _)

theorem category_of_mem_referenceIssues {issue : Issue} (member : issue ∈ referenceIssues graph) :
    issue.category = .danglingReference ∨ issue.category = .keyMismatch := by
  rcases List.mem_append.1 member with lists | sinks
  · rcases List.mem_append.1 lists with lists | reverse
    · rcases List.mem_append.1 lists with nodes | forward
      · obtain ⟨⟨key, node⟩, _, found⟩ := List.mem_flatMap.1 nodes
        rcases List.mem_append.1 found with misfiled | dangles
        · split at misfiled
          · cases misfiled
          · exact .inr (List.mem_singleton.1 misfiled ▸ rfl)
        · exact .inl (about_dangling graph _ _ issue dangles)
      · exact .inl (about_adjacencyIssues graph .forward issue forward)
    · exact .inl (about_adjacencyIssues graph .reverse issue reverse)
  · exact .inl (about_dangling graph .sinks graph.sinks issue sinks)

theorem filter_category_referenceIssues (graph : Graph) {category : Category}
    (dangling : category ≠ .danglingReference) (misfiled : category ≠ .keyMismatch) :
    (referenceIssues graph).filter (·.category = category) = [] := by
  apply List.filter_eq_nil_iff.2
  intro issue member
  rcases category_of_mem_referenceIssues member with same | same <;>
    simp [same, dangling.symm, misfiled.symm]

/-- The issues of a category, by the one check that is about it. -/
def issuesIn (graph : Graph) (partition : Partition) : Category → List Issue
  | .danglingReference => (referenceIssues graph).filter (·.category = .danglingReference)
  | .keyMismatch => (referenceIssues graph).filter (·.category = .keyMismatch)
  | .cycle => cycleIssues graph
  | .unknownNode => unknownIssues graph partition
  | .duplicateNode => repeatedNodeIssues graph partition
  | .missingNode => uncoveredIssues graph partition
  | .duplicatePartitionId => entryIssues partition
  | .joinMismatch => partition.regions.filterMap joinIssue?
  | .chainOrder => partition.chains.flatMap (chainOrderIssues graph)
  | .batchOrder => partition.regions.flatMap (batchOrderIssues graph)
  | .emptyPartitionEntry =>
    partition.chains.filterMap emptyChainIssue? ++ partition.regions.flatMap emptyBatchIssues
  -- Audits alone report the other categories.
  | _ => []

theorem filter_category_issues (graph : Graph) (partition : Partition) (category : Category) :
    (issues graph partition).filter (·.category = category) = issuesIn graph partition category := by
  have empties := (about_emptyChainIssues partition.chains).append (about_emptyBatchIssues partition.regions)
  rw [issues, List.append_assoc _ (partition.chains.filterMap emptyChainIssue?)]
  simp only [List.filter_append, (about_cycleIssues graph).filter, (about_unknownIssues graph partition).filter,
    (about_repeatedNodeIssues graph partition).filter, (about_uncoveredIssues graph partition).filter,
    (about_entryIssues partition).filter, (about_joinIssues partition.regions).filter,
    (about_chainOrderIssues graph partition.chains).filter,
    (about_batchOrderIssues graph partition.regions).filter]
  rw [← List.filter_append, empties.filter]
  cases category <;> simp [issuesIn, filter_category_referenceIssues]

theorem category_of_mem_issuesIn {category : Category} {issue : Issue}
    (member : issue ∈ issuesIn graph partition category) : issue.category = category := by
  rw [← filter_category_issues] at member
  exact of_decide_eq_true (List.mem_filter.1 member).2

theorem inCategory_review (settings : Settings) (graph : Graph) (partition : Partition) (category : Category) :
    (partition.review settings graph).inCategory category =
      (Report.ofIssues (Issue.grade settings) (issuesIn graph partition category)).findings := by
  rw [← filter_category_issues]
  exact Report.inCategory_ofIssues ..

/-- Settings hide mismatched joins and nothing else. -/
theorem Issue.exists_grade {issue : Issue} (settings : Settings) (visible : issue.category ≠ .joinMismatch) :
    ∃ severity, issue.grade settings = some severity := by
  cases issue with
  | joinMismatch => exact absurd rfl visible
  | repeatedEntry entry =>
    obtain ⟨kind, _⟩ := entry
    cases kind <;> exact ⟨_, rfl⟩
  | _ => exact ⟨_, rfl⟩

theorem count_review_eq_zero_iff {settings : Settings} {category : Category} (visible : category ≠ .joinMismatch) :
    (partition.review settings graph).count category = 0 ↔ issuesIn graph partition category = [] := by
  rw [Report.count, List.countP_eq_zero, ← filter_category_issues, List.filter_eq_nil_iff]
  simp only [decide_eq_true_eq]
  constructor
  · intro silent issue member same
    obtain ⟨severity, graded⟩ := issue.exists_grade settings (same ▸ visible)
    exact silent ⟨severity, issue⟩ (Report.mem_ofIssues.2 ⟨member, graded⟩) same
  · intro silent finding member
    exact silent finding.issue (Report.mem_ofIssues.1 member).1

end Partition

end Orchestration
