import Orchestration.Proofs.Accounting
import Orchestration.Proofs.Compilation

/-! Settings and reviews. Settings decide how much uncovered nodes and mismatched joins weigh, and whether
the latter are mentioned at all; everything else is reported alike under all settings. What the strictest
settings accept is therefore accepted under any, and compiled to the same machine. -/

set_option autoImplicit false

namespace Orchestration

/-- Issues of these categories weigh the same under all settings. -/
def Category.isFixed : Category → Bool
  | missingNode | joinMismatch => false
  | _ => true

def Settings.strictest : Settings where
  reviewPartition := true
  auditMachine := true
  joinPolicy := .enforce
  fullCoverage := true

namespace Partition

variable {settings other : Settings} {graph : Graph} {partition : Partition}

theorem Issue.grade_eq_of_isFixed (settings other : Settings) {issue : Issue}
    (fixed : issue.category.isFixed = true) :
    issue.grade settings = issue.grade other := by
  have coverage : issue.category ≠ .missingNode := by
    intro same
    simp [same, Category.isFixed] at fixed
  have joins : issue.category ≠ .joinMismatch := by
    intro same
    simp [same, Category.isFixed] at fixed
  exact (grade_eq_default coverage joins).trans (grade_eq_default coverage joins).symm

/-- What is an error under some settings is one where everything that can be one is. -/
theorem Issue.grade_of_error {issue : Issue} (enforce : settings.joinPolicy = .enforce)
    (full : settings.fullCoverage = true) (error : issue.grade other = some .error) :
    issue.grade settings = some .error := by
  cases fixed : issue.category.isFixed with
  | true => rwa [grade_eq_of_isFixed settings other fixed]
  | false =>
    cases issue with
    | uncovered node => simp [grade, full]
    | joinMismatch region nodes => simp [grade, enforce]
    | _ => cases fixed

theorem findings_fixed (settings other : Settings) (graph : Graph) (partition : Partition) :
    (partition.review settings graph).findings.filter (·.issue.category.isFixed) =
      (partition.review other graph).findings.filter (·.issue.category.isFixed) := by
  simp only [review, Report.ofIssues, List.filter_filterMap]
  apply List.filterMap_congr
  intro issue _
  cases fixed : issue.category.isFixed with
  | false => cases issue.grade settings <;> cases issue.grade other <;> simp [Option.filter, fixed]
  | true => rw [Issue.grade_eq_of_isFixed settings other fixed]

def joinWeight? : JoinPolicy → Option Severity
  | .ignore => none
  | .warn => some .warning
  | .enforce => some .error

theorem exists_joinWeight {policy : JoinPolicy} (heeded : policy ≠ .ignore) :
    ∃ severity, joinWeight? policy = some severity := by
  cases policy with
  | ignore => exact absurd rfl heeded
  | warn => exact ⟨.warning, rfl⟩
  | enforce => exact ⟨.error, rfl⟩

theorem grade_of_mem_joinIssues (settings : Settings) {regions : List Region} {issue : Issue}
    (member : issue ∈ regions.filterMap joinIssue?) : issue.grade settings = joinWeight? settings.joinPolicy := by
  obtain ⟨region, _, found⟩ := List.mem_filterMap.1 member
  rw [joinIssue?_eq_some found]
  cases settings with
  | mk _ _ policy _ => cases policy <;> rfl

theorem inCategory_joinMismatch (settings : Settings) (graph : Graph) (partition : Partition) :
    (partition.review settings graph).inCategory .joinMismatch =
      (Report.ofIssues (Issue.grade settings) (partition.regions.filterMap joinIssue?)).findings :=
  inCategory_review ..

theorem items_joinMismatch_of_ignore (ignored : settings.joinPolicy = .ignore) (graph : Graph)
    (partition : Partition) :
    (partition.review settings graph).items.filter (·.issue.category = .joinMismatch) = [] := by
  have silent : (partition.review settings graph).inCategory .joinMismatch =
      ([] : List Issue).map (⟨.warning, ·⟩) := by
    rw [inCategory_joinMismatch]
    apply List.filterMap_eq_nil_iff.2
    intro issue member
    rw [grade_of_mem_joinIssues settings member, ignored]
    rfl
  exact Report.filter_category_items silent

/-- Where mismatched joins have a weight, all of them are reported with it. -/
theorem items_joinMismatch {severity : Severity} (weight : joinWeight? settings.joinPolicy = some severity) :
    (partition.review settings graph).items.filter (·.issue.category = .joinMismatch) =
      (partition.regions.filterMap joinIssue?).map (⟨severity, ·⟩) := by
  apply Report.filter_category_items
  rw [inCategory_joinMismatch]
  exact Report.findings_ofIssues_of_graded fun issue member => (grade_of_mem_joinIssues settings member).trans weight

theorem items_missingNode (settings : Settings) (graph : Graph) (partition : Partition) :
    (partition.review settings graph).items.filter (·.issue.category = .missingNode) =
      (uncoveredIssues graph partition).map (⟨if settings.fullCoverage then .error else .warning, ·⟩) := by
  apply Report.filter_category_items
  rw [inCategory_missingNode, uncoveredIssues_eq, List.map_map]
  rfl

structure Reweighs (settings other : Settings) (report second : Report Issue) : Prop where
  fixed : report.items.filter (·.issue.category.isFixed) = second.items.filter (·.issue.category.isFixed)
  uncovered : (report.items.filter (·.issue.category = .missingNode)).map Finding.issue =
    (second.items.filter (·.issue.category = .missingNode)).map Finding.issue
  uncoveredWeight : ∀ finding ∈ report.items, finding.issue.category = .missingNode →
    finding.severity = if settings.fullCoverage then .error else .warning
  joins : settings.joinPolicy ≠ .ignore → other.joinPolicy ≠ .ignore →
    (report.items.filter (·.issue.category = .joinMismatch)).map Finding.issue =
      (second.items.filter (·.issue.category = .joinMismatch)).map Finding.issue
  joinsIgnored : settings.joinPolicy = .ignore →
    ∀ finding ∈ report.items, finding.issue.category ≠ .joinMismatch
  joinsWarned : settings.joinPolicy = .warn →
    ∀ finding ∈ report.items, finding.issue.category = .joinMismatch → finding.severity = .warning
  joinsEnforced : settings.joinPolicy = .enforce →
    ∀ finding ∈ report.items, finding.issue.category = .joinMismatch → finding.severity = .error

theorem severity_of_items {category : Category} {report : Report Issue} {severity : Severity} {issues : List Issue}
    (closed : report.items.filter (·.issue.category = category) = issues.map (⟨severity, ·⟩))
    {finding : Finding Issue} (member : finding ∈ report.items) (about : finding.issue.category = category) :
    finding.severity = severity := by
  have listed : finding ∈ report.items.filter (·.issue.category = category) :=
    List.mem_filter.2 ⟨member, decide_eq_true about⟩
  rw [closed] at listed
  obtain ⟨_, _, rfl⟩ := List.mem_map.1 listed
  rfl

theorem reweighs_review (settings other : Settings) (graph : Graph) (partition : Partition) :
    Reweighs settings other (partition.review settings graph) (partition.review other graph) where
  fixed := by
    rw [Report.items, Report.items, List.filter_append, List.filter_append, Report.filter_errors,
      Report.filter_errors, Report.filter_warnings, Report.filter_warnings, findings_fixed settings other]
  uncovered := by simp only [items_missingNode, List.map_map, Function.comp_def]
  uncoveredWeight finding := severity_of_items (items_missingNode settings graph partition)
  joins weighs weighed := by
    obtain ⟨severity, weight⟩ := exists_joinWeight weighs
    obtain ⟨otherSeverity, otherWeight⟩ := exists_joinWeight weighed
    simp only [items_joinMismatch weight, items_joinMismatch otherWeight, List.map_map, Function.comp_def]
  joinsIgnored ignored finding member := by
    have silent := List.filter_eq_nil_iff.1 (items_joinMismatch_of_ignore ignored graph partition)
    simpa using silent finding member
  joinsWarned warned finding :=
    severity_of_items (items_joinMismatch (by rw [warned]; rfl))
  joinsEnforced enforced finding :=
    severity_of_items (items_joinMismatch (by rw [enforced]; rfl))

/-- What is consistent under strict settings is so under all. -/
theorem Consistent.relax (consistent : Consistent settings graph partition)
    (enforce : settings.joinPolicy = .enforce) (full : settings.fullCoverage = true) (other : Settings) :
    Consistent other graph partition :=
  { consistent with
    joins := fun _ => consistent.joins enforce
    coverage := fun _ => consistent.coverage full }

theorem hasErrors_review_of_strict (enforce : settings.joinPolicy = .enforce)
    (full : settings.fullCoverage = true) (accepted : (partition.review settings graph).hasErrors = false)
    (other : Settings) : (partition.review other graph).hasErrors = false := by
  apply Report.hasErrors_ofIssues_eq_false_iff.2
  intro issue member error
  exact Report.hasErrors_ofIssues_eq_false_iff.1 accepted issue member (issue.grade_of_error enforce full error)

/-- Settings change the weight of uncovered nodes and of mismatched joins and nothing else of a report, and
of the latter whether they are in it. What is accepted where joins are enforced and full coverage is asked
for is accepted under all settings, and what the strictest settings compile becomes the same machine under
all. -/
theorem settings_only_reweigh (settings other : Settings) (graph : Graph) (partition : Partition) :
    Reweighs settings other (partition.review settings graph) (partition.review other graph) ∧
      (settings.joinPolicy = .enforce → settings.fullCoverage = true →
        (partition.review settings graph).hasErrors = false →
          (partition.review other graph).hasErrors = false) ∧
      ∀ machine, partition.compile .strictest graph = .ok machine →
        partition.compile other graph = .ok machine := by
  refine ⟨reweighs_review settings other graph partition, ?_, ?_⟩
  · exact fun enforce full accepted => hasErrors_review_of_strict enforce full accepted other
  · intro machine compiled
    obtain ⟨consistent, rfl⟩ := consistent_of_compile rfl compiled
    exact (consistent.relax rfl rfl other).compile

theorem settings_reweigh_diamond :
    (diamond.review .strictest diamondGraph).hasErrors = false ∧
      (∀ settings, (diamond.review settings diamondGraph).hasErrors = false) ∧
      ∃ machine, diamond.compile .strictest diamondGraph = .ok machine ∧
        ∀ settings, diamond.compile settings diamondGraph = .ok machine := by
  have accepted : (diamond.review .strictest diamondGraph).hasErrors = false := by decide +kernel
  have compiled : diamond.compile .strictest diamondGraph = .ok (diamond.machine diamondGraph) := by decide +kernel
  refine ⟨accepted, fun settings => ?_, _, compiled, fun settings => ?_⟩
  · exact (settings_only_reweigh .strictest settings diamondGraph diamond).2.1 rfl rfl accepted
  · exact (settings_only_reweigh .strictest settings diamondGraph diamond).2.2 _ compiled

/-- A node that is left out and a region that declares other joins than its last batch, after a stranger in
a chain, which is an error in any case. -/
example :
    let nodes : List Node := [{ id := "a" }, { id := "b" }]
    let graph : Graph := { nodes := .ofList (nodes.map fun node => (node.id, node)) }
    let partition : Partition := { chains := [⟨"line", ["x"]⟩], regions := [⟨"fan", [["a"]], ["b"]⟩] }
    let shown (settings : Settings) := (partition.review settings graph).items.map fun finding =>
      (finding.severity, finding.issue.category)
    shown {} = [(.error, .unknownNode), (.warning, .missingNode), (.warning, .joinMismatch)] ∧
      shown { joinPolicy := .ignore, fullCoverage := true } = [(.error, .unknownNode), (.error, .missingNode)] ∧
      shown .strictest = [(.error, .unknownNode), (.error, .missingNode), (.error, .joinMismatch)] := by
  decide +kernel

end Partition

end Orchestration
