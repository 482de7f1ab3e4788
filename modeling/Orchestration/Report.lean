/-! Findings and reports. A check never stops at the first defect: it lists every issue
it meets, graded as an error or a warning, and the reader of the report decides. -/

set_option autoImplicit false

namespace Orchestration

inductive Severity where
  | warning
  | error
  deriving DecidableEq, Repr

/-- What an issue is about. The first eleven concern a partition of a graph, the others
a machine; the order of the constructors is the order in which counts are listed. -/
inductive Category where
  | danglingReference
  | keyMismatch
  | cycle
  | unknownNode
  | duplicateNode
  | missingNode
  | duplicatePartitionId
  | joinMismatch
  | chainOrder
  | batchOrder
  | emptyPartitionEntry
  | duplicateStateId
  | finalStates
  | unknownTarget
  | errorRouting
  | parallelMisuse
  | transitionShape
  | unreachableState
  deriving DecidableEq, Repr

namespace Category

def name : Category → String
  | danglingReference => "DanglingReference"
  | keyMismatch => "KeyMismatch"
  | cycle => "Cycle"
  | unknownNode => "UnknownNode"
  | duplicateNode => "DuplicateNode"
  | missingNode => "MissingNode"
  | duplicatePartitionId => "DuplicatePartitionId"
  | joinMismatch => "JoinMismatch"
  | chainOrder => "ChainOrder"
  | batchOrder => "BatchOrder"
  | emptyPartitionEntry => "EmptyPartitionEntry"
  | duplicateStateId => "DuplicateStateId"
  | finalStates => "FinalStates"
  | unknownTarget => "UnknownTarget"
  | errorRouting => "ErrorRouting"
  | parallelMisuse => "ParallelMisuse"
  | transitionShape => "TransitionShape"
  | unreachableState => "UnreachableState"

def all : List Category :=
  [danglingReference, keyMismatch, cycle, unknownNode, duplicateNode, missingNode,
    duplicatePartitionId, joinMismatch, chainOrder, batchOrder, emptyPartitionEntry,
    duplicateStateId, finalStates, unknownTarget, errorRouting, parallelMisuse,
    transitionShape, unreachableState]

theorem mem_all (category : Category) : category ∈ all := by
  cases category <;> decide

end Category

/-- Issues that a report can carry: their category, their text, and the ids of the nodes,
of the chains or regions, and of the states they concern. -/
class Reportable (ι : Type) where
  category : ι → Category
  message : ι → String
  nodes : ι → List String
  entries : ι → List String
  states : ι → List String

structure Finding (ι : Type) where
  severity : Severity
  issue : ι
  deriving DecidableEq, Repr

structure Report (ι : Type) where
  findings : List (Finding ι)
  deriving DecidableEq, Repr

namespace Report

variable {ι : Type}

/-- The report of the given issues; an issue without a grade is left out. -/
def ofIssues (grade : ι → Option Severity) (issues : List ι) : Report ι :=
  ⟨issues.filterMap fun issue => (grade issue).map (⟨·, issue⟩)⟩

theorem mem_ofIssues {grade : ι → Option Severity} {issues : List ι} {finding : Finding ι} :
    finding ∈ (ofIssues grade issues).findings ↔
      finding.issue ∈ issues ∧ grade finding.issue = some finding.severity := by
  obtain ⟨severity, issue⟩ := finding
  simp only [ofIssues, List.mem_filterMap, Option.map_eq_some_iff, Finding.mk.injEq]
  constructor
  · rintro ⟨_, member, _, graded, rfl, rfl⟩
    exact ⟨member, graded⟩
  · rintro ⟨member, graded⟩
    exact ⟨issue, member, severity, graded, rfl, rfl⟩

def errors (report : Report ι) : List (Finding ι) :=
  report.findings.filter (·.severity = .error)

def warnings (report : Report ι) : List (Finding ι) :=
  report.findings.filter (·.severity = .warning)

def items (report : Report ι) : List (Finding ι) :=
  report.errors ++ report.warnings

def hasErrors (report : Report ι) : Bool :=
  !report.errors.isEmpty

def hasWarnings (report : Report ι) : Bool :=
  !report.warnings.isEmpty

def isValid (report : Report ι) : Bool :=
  report.errors.isEmpty

theorem mem_errors {report : Report ι} {finding : Finding ι} :
    finding ∈ report.errors ↔ finding ∈ report.findings ∧ finding.severity = .error := by
  simp [errors]

theorem mem_warnings {report : Report ι} {finding : Finding ι} :
    finding ∈ report.warnings ↔ finding ∈ report.findings ∧ finding.severity = .warning := by
  simp [warnings]

theorem mem_items {report : Report ι} {finding : Finding ι} :
    finding ∈ report.items ↔ finding ∈ report.findings := by
  rw [items, List.mem_append, mem_errors, mem_warnings]
  cases finding.severity <;> simp

theorem isValid_iff {report : Report ι} :
    report.isValid = true ↔ ∀ finding ∈ report.findings, finding.severity ≠ .error := by
  simp [isValid, errors]

def count [Reportable ι] (report : Report ι) (category : Category) : Nat :=
  report.findings.countP (Reportable.category ·.issue = category)

def render [Reportable ι] (report : Report ι) (heading : String) : String :=
  heading ++ " with " ++ toString report.errors.length ++ " error(s):\n" ++
    String.join (report.errors.map fun finding =>
      "  - [" ++ (Reportable.category finding.issue).name ++ "] " ++
        Reportable.message finding.issue ++ "\n")

end Report

end Orchestration
