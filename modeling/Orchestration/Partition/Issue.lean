import Orchestration.Graph.Basic
import Orchestration.Partition.Basic
import Orchestration.Report
import Orchestration.Settings

/-! What can be wrong with a graph and a partition of it, how each issue reads, and how
much it weighs under given settings. -/

set_option autoImplicit false

namespace Orchestration

namespace Partition

inductive Site where
  | dependencies (node : String)
  | adjacency (direction : Direction)
  | adjacencyOf (direction : Direction) (node : String)
  | sinks
  deriving DecidableEq, Repr

def Site.text : Site → String
  | dependencies node => s!"Dependency list of node '{node}'"
  | adjacency direction => direction.name ++ " adjacency"
  | adjacencyOf direction node => direction.name ++ s!" adjacency of '{node}'"
  | sinks => "Sink list"

inductive Issue where
  | dangling (site : Site) (id : String)
  | misfiled (key id : String)
  | cycle (nodes : List String)
  | unknownNode (listing : Listing)
  | repeatedNode (node : String) (entries : List String)
  | uncovered (node : String)
  | repeatedEntry (entry : Entry) (uses : Nat)
  | joinMismatch (region : String) (nodes : List String)
  | chainOrder (chain previous current : String)
  | batchOrder (region : String) (batch : Nat) (node : String) (later : Nat) (dependency : String)
  | emptyChain (chain : String)
  | noBatches (region : String)
  | emptyBatch (region : String) (batch : Nat)
  deriving DecidableEq, Repr

namespace Issue

def category : Issue → Category
  | dangling _ _ => .danglingReference
  | misfiled _ _ => .keyMismatch
  | cycle _ => .cycle
  | unknownNode _ => .unknownNode
  | repeatedNode _ _ => .duplicateNode
  | uncovered _ => .missingNode
  | repeatedEntry _ _ => .duplicatePartitionId
  | joinMismatch _ _ => .joinMismatch
  | chainOrder _ _ _ => .chainOrder
  | batchOrder _ _ _ _ _ => .batchOrder
  | emptyChain _ => .emptyPartitionEntry
  | noBatches _ => .emptyPartitionEntry
  | emptyBatch _ _ => .emptyPartitionEntry

def message : Issue → String
  | dangling site id => site.text ++ s!" references unknown node '{id}'"
  | misfiled key id => s!"Node stored under '{key}' has id '{id}'"
  | cycle _ => "Cycle detected in node dependencies"
  | unknownNode ⟨⟨kind, id⟩, node⟩ => kind.name ++ s!" '{id}' references unknown node '{node}'"
  | repeatedNode node entries =>
    s!"Node '{node}' appears " ++ toString entries.length ++ " times in the partition"
  | uncovered node => s!"Node '{node}' is not covered by any chain or batch"
  | repeatedEntry ⟨kind, id⟩ uses => kind.name ++ s!" id '{id}' is used {uses} times"
  | joinMismatch region _ => s!"Region '{region}' declares joins that differ from its last batch"
  | chainOrder chain previous current =>
    s!"Chain '{chain}' runs '{current}' after '{previous}' but it does not depend on it"
  | batchOrder region batch node later dependency =>
    s!"Region '{region}' batch #{batch} node '{node}' depends on '{dependency}' in batch #{later}"
  | emptyChain chain => s!"Chain '{chain}' is empty"
  | noBatches region => s!"Region '{region}' has no batches"
  | emptyBatch region batch => s!"Region '{region}' batch #{batch} is empty"

def nodes : Issue → List String
  | dangling _ id => [id]
  | misfiled key _ => [key]
  | cycle nodes => nodes
  | unknownNode listing => [listing.node]
  | repeatedNode node _ => [node]
  | uncovered node => [node]
  | joinMismatch _ nodes => nodes
  | chainOrder _ previous current => [previous, current]
  | batchOrder _ _ node _ dependency => [node, dependency]
  | _ => []

def entries : Issue → List String
  | unknownNode listing => [listing.entry.id]
  | repeatedNode _ entries => entries
  | repeatedEntry entry _ => [entry.id]
  | joinMismatch region _ => [region]
  | chainOrder chain _ _ => [chain]
  | batchOrder region _ _ _ _ => [region]
  | emptyChain chain => [chain]
  | noBatches region => [region]
  | emptyBatch region _ => [region]
  | _ => []

instance : Reportable Issue where
  category := category
  message := message
  nodes := nodes
  entries := entries
  states _ := []

/-- How much an issue weighs; one that the settings ignore has no weight. Chain ids occur
in no state id, so chains may share one; region ids do, so regions may not. -/
def grade (settings : Settings) : Issue → Option Severity
  | dangling _ _ | misfiled _ _ | cycle _ | unknownNode _ | repeatedNode _ _ => some .error
  | uncovered _ => some (if settings.fullCoverage then .error else .warning)
  | repeatedEntry ⟨.chain, _⟩ _ => some .warning
  | repeatedEntry ⟨.region, _⟩ _ => some .error
  | joinMismatch _ _ =>
    match settings.joinPolicy with
    | .ignore => none
    | .warn => some .warning
    | .enforce => some .error
  | chainOrder _ _ _ | batchOrder _ _ _ _ _ => some .warning
  | emptyChain _ | noBatches _ | emptyBatch _ _ => some .warning

/-- Settings change the weight of uncovered nodes and of join mismatches only. -/
theorem grade_eq_default {settings : Settings} {issue : Issue}
    (coverage : issue.category ≠ .missingNode) (joins : issue.category ≠ .joinMismatch) :
    issue.grade settings = issue.grade {} := by
  cases issue with
  | uncovered => exact absurd rfl coverage
  | joinMismatch => exact absurd rfl joins
  | repeatedEntry entry =>
    obtain ⟨kind, _⟩ := entry
    cases kind <;> rfl
  | _ => rfl

end Issue

end Partition

end Orchestration
