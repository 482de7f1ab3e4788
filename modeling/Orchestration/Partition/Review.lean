import Orchestration.Graph.Release
import Orchestration.Ids
import Orchestration.Partition.Issue

/-! Reviewing a partition against its graph. Each family of checks is a list of issues;
the review is all of them in a fixed order, graded by the settings. -/

set_option autoImplicit false

namespace Orchestration.Partition

def dangling (graph : Graph) (site : Site) (ids : List String) : List Issue :=
  (ids.filter (!graph.contains ·)).map (.dangling site)

def nodeIssues (graph : Graph) (key : String) (node : Node) : List Issue :=
  (if node.id = key then [] else [.misfiled key node.id]) ++
    dangling graph (.dependencies key) node.deps

def adjacencyIssues (graph : Graph) (direction : Direction) : List Issue :=
  (graph.adjacency direction).toList.flatMap fun (key, ids) =>
    dangling graph (.adjacency direction) [key] ++
      dangling graph (.adjacencyOf direction key) ids

def referenceIssues (graph : Graph) : List Issue :=
  (graph.nodes.toList.flatMap fun (key, node) => nodeIssues graph key node) ++
    adjacencyIssues graph .forward ++
    adjacencyIssues graph .reverse ++
    dangling graph .sinks graph.sinks

def cycleIssues (graph : Graph) : List Issue :=
  (graph.cycle?.map .cycle).toList

/-- What a pass over the listings of a partition notes: which name no node of the graph, and for every
other node the entries that list it, once for every listing. -/
structure Roll where
  unknown : List Issue := []
  occurrences : Adjacency := ∅

def Roll.record (graph : Graph) (roll : Roll) (listing : Listing) : Roll :=
  if graph.contains listing.node then
    { roll with occurrences := roll.occurrences.push listing.node listing.entry.id }
  else { roll with unknown := roll.unknown ++ [.unknownNode listing] }

def roll (graph : Graph) (partition : Partition) : Roll :=
  partition.listings.foldl (Roll.record graph) {}

def unknownIssues (graph : Graph) (partition : Partition) : List Issue :=
  (partition.roll graph).unknown

def repeatedNodeIssues (graph : Graph) (partition : Partition) : List Issue :=
  ((partition.roll graph).occurrences.toList.filter fun (_, entries) => 1 < entries.length).map
    fun (node, entries) => .repeatedNode node entries

def uncoveredIssues (graph : Graph) (partition : Partition) : List Issue :=
  (graph.nodes.keys.filter (!(partition.roll graph).occurrences.contains ·)).map .uncovered

def entryIssues (partition : Partition) : List Issue :=
  ((Ids.repeated (partition.chains.map Chain.id)).map fun (id, uses) =>
      .repeatedEntry ⟨.chain, id⟩ uses) ++
    (Ids.repeated (partition.regions.map Region.id)).map fun (id, uses) =>
      .repeatedEntry ⟨.region, id⟩ uses

/-- A region that declares joins has to declare its last batch, as a set. -/
def joinIssue? (region : Region) : Option Issue :=
  let nodes := Ids.difference region.joins region.lastBatch
  if region.joins = [] ∨ nodes = [] then none else some (.joinMismatch region.id nodes)

def chainOrderIssue? (graph : Graph) (chain : Chain) (previous current : String) : Option Issue :=
  match graph.find? previous, graph.find? current with
  | some before, some after =>
    if after.dependsOn before.id then none else some (.chainOrder chain.id before.id after.id)
  | _, _ => none

def chainOrderIssues (graph : Graph) (chain : Chain) : List Issue :=
  (chain.path.zip chain.path.tail).filterMap fun (previous, current) =>
    chainOrderIssue? graph chain previous current

def batchOrderIssue? (region : Region) (batch : Nat) (node dependency : String) : Option Issue :=
  match region.batchOf? dependency with
  | some other =>
    if other < batch then none else some (.batchOrder region.id batch node other dependency)
  | none => none

def batchOrderIssues (graph : Graph) (region : Region) : List Issue :=
  region.numbered.flatMap fun (nodes, batch) => nodes.flatMap fun node =>
    match graph.find? node with
    | some found => found.deps.filterMap (batchOrderIssue? region batch node)
    | none => []

def emptyChainIssue? (chain : Chain) : Option Issue :=
  if chain.path = [] then some (.emptyChain chain.id) else none

def emptyBatchIssues (region : Region) : List Issue :=
  if region.batches = [] then [.noBatches region.id]
  else (region.numbered.filter fun (nodes, _) => nodes.isEmpty).map fun (_, batch) =>
    .emptyBatch region.id batch

/-- Everything there is to say about a partition of a graph: the graph itself, the
partition against the graph, then what is only suspicious. -/
def issues (graph : Graph) (partition : Partition) : List Issue :=
  referenceIssues graph ++
    cycleIssues graph ++
    unknownIssues graph partition ++
    repeatedNodeIssues graph partition ++
    uncoveredIssues graph partition ++
    entryIssues partition ++
    partition.regions.filterMap joinIssue? ++
    partition.chains.flatMap (chainOrderIssues graph) ++
    partition.regions.flatMap (batchOrderIssues graph) ++
    partition.chains.filterMap emptyChainIssue? ++
    partition.regions.flatMap emptyBatchIssues

def review (settings : Settings) (graph : Graph) (partition : Partition) : Report Issue :=
  .ofIssues (Issue.grade settings) (issues graph partition)

theorem joinIssue?_eq_none_iff {region : Region} :
    joinIssue? region = none ↔
      (region.joins ≠ [] → ∀ id, id ∈ region.joins ↔ id ∈ region.lastBatch) := by
  simp only [joinIssue?, ite_eq_left_iff, reduceCtorEq, imp_false, Decidable.not_not,
    ← Ids.difference_eq_nil_iff]
  by_cases region.joins = [] <;> simp [*]

end Orchestration.Partition
