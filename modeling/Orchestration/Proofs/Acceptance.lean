import Orchestration.Proofs.Occurrences
import Orchestration.Proofs.Release

/-! Which partitions a review accepts. Each family of checks is silent about errors under one
condition of its own, and together these conditions are the consistency of a partition with
its graph. -/

set_option autoImplicit false

namespace Orchestration

namespace Report

variable {ι : Type}

theorem hasErrors_ofIssues_eq_false_iff {grade : ι → Option Severity} {issues : List ι} :
    (ofIssues grade issues).hasErrors = false ↔ ∀ issue ∈ issues, grade issue ≠ some .error := by
  have empty : (ofIssues grade issues).hasErrors = false ↔ (ofIssues grade issues).errors = [] := by
    simp [hasErrors]
  rw [empty, List.eq_nil_iff_forall_not_mem]
  simp only [mem_errors, mem_ofIssues]
  constructor
  · intro none issue member graded
    exact none ⟨.error, issue⟩ ⟨⟨member, graded⟩, rfl⟩
  · intro harmless finding error
    rcases error with ⟨⟨member, graded⟩, severe⟩
    exact harmless finding.issue member (severe ▸ graded)

end Report

structure Graph.Closed (graph : Graph) : Prop where
  dependencies : ∀ key node, graph.find? key = some node → ∀ id ∈ node.deps, graph.contains id = true
  adjacency : ∀ direction key ids, (graph.adjacency direction)[key]? = some ids →
    graph.contains key = true ∧ ∀ id ∈ ids, graph.contains id = true
  sinks : ∀ id ∈ graph.sinks, graph.contains id = true

namespace Partition

/-- What a partition and its graph have to satisfy before they are compiled. -/
structure Consistent (settings : Settings) (graph : Graph) (partition : Partition) : Prop where
  closed : graph.Closed
  selfKeyed : graph.SelfKeyed
  acyclic : graph.Acyclic
  known : ∀ id ∈ partition.listed, graph.contains id = true
  once : ∀ key, graph.contains key = true → partition.listed.count key ≤ 1
  regions : (partition.regions.map Region.id).Nodup
  joins : settings.joinPolicy = .enforce → ∀ region ∈ partition.regions, region.joins ≠ [] →
    ∀ id, id ∈ region.joins ↔ id ∈ region.lastBatch
  coverage : settings.fullCoverage = true → ∀ key, graph.contains key = true → key ∈ partition.listed

def Harmless (settings : Settings) (issues : List Issue) : Prop :=
  ∀ issue ∈ issues, issue.grade settings ≠ some .error

section

variable {settings : Settings} {graph : Graph} {partition : Partition}

theorem harmless_append {first second : List Issue} :
    Harmless settings (first ++ second) ↔ Harmless settings first ∧ Harmless settings second := by
  simp only [Harmless, List.mem_append, or_imp, forall_and]

theorem harmless_flatMap {α : Type} {sources : List α} {check : α → List Issue} :
    Harmless settings (sources.flatMap check) ↔ ∀ source ∈ sources, Harmless settings (check source) := by
  simp only [Harmless, List.mem_flatMap]
  exact ⟨fun all source member issue found => all issue ⟨source, member, found⟩,
    fun all issue ⟨source, member, found⟩ => all source member issue found⟩

/-- Where issues are errors under one condition, under that condition only silence is harmless. -/
theorem harmless_iff {issues : List Issue} (strict : Prop)
    (graded : ∀ issue ∈ issues, issue.grade settings = some .error ↔ strict) :
    Harmless settings issues ↔ (strict → issues = []) := by
  rw [List.eq_nil_iff_forall_not_mem]
  constructor
  · intro harmless condition issue member
    exact harmless issue member ((graded issue member).2 condition)
  · intro silent issue member error
    exact silent ((graded issue member).1 error) issue member

theorem harmless_iff_eq_nil {issues : List Issue}
    (errors : ∀ issue ∈ issues, issue.grade settings = some .error) :
    Harmless settings issues ↔ issues = [] := by
  rw [harmless_iff True fun issue member => by simp [errors issue member]]
  exact true_imp_iff

theorem harmless_of_warnings {issues : List Issue}
    (warnings : ∀ issue ∈ issues, issue.grade settings = some .warning) : Harmless settings issues :=
  (harmless_iff False fun issue member => by simp [warnings issue member]).2 False.elim

theorem harmless_map_iff {α : Type} {sources : List α} {issue : α → Issue}
    (errors : ∀ source, (issue source).grade settings = some .error) :
    Harmless settings (sources.map issue) ↔ sources = [] := by
  rw [← List.map_eq_nil_iff]
  apply harmless_iff_eq_nil
  intro made member
  obtain ⟨source, _, rfl⟩ := List.mem_map.1 member
  exact errors source

theorem harmless_dangling_iff {site : Site} {ids : List String} :
    Harmless settings (dangling graph site ids) ↔ ∀ id ∈ ids, graph.contains id = true := by
  rw [dangling, harmless_map_iff fun _ => rfl]
  simp

theorem harmless_nodeIssues_iff {key : String} {node : Node} :
    Harmless settings (nodeIssues graph key node) ↔
      node.id = key ∧ ∀ id ∈ node.deps, graph.contains id = true := by
  rw [nodeIssues, harmless_append, harmless_dangling_iff]
  by_cases same : node.id = key <;> simp [Harmless, same, Issue.grade]

theorem harmless_adjacencyIssues_iff {direction : Direction} :
    Harmless settings (adjacencyIssues graph direction) ↔
      ∀ key ids, (graph.adjacency direction)[key]? = some ids →
        graph.contains key = true ∧ ∀ id ∈ ids, graph.contains id = true := by
  simp only [adjacencyIssues, harmless_flatMap, harmless_append, harmless_dangling_iff,
    Prod.forall, Std.TreeMap.mem_toList_iff_getElem?_eq_some, List.mem_singleton, forall_eq]

theorem harmless_referenceIssues_iff :
    Harmless settings (referenceIssues graph) ↔ graph.SelfKeyed ∧ graph.Closed := by
  simp only [referenceIssues, harmless_append, harmless_adjacencyIssues_iff, harmless_dangling_iff,
    harmless_flatMap, harmless_nodeIssues_iff, Prod.forall,
    Std.TreeMap.mem_toList_iff_getElem?_eq_some]
  constructor
  · intro silent
    rcases silent with ⟨⟨⟨nodes, forward⟩, reverse⟩, sinks⟩
    refine ⟨fun key node found => (nodes key node found).1, fun key node found => (nodes key node found).2,
      fun direction => ?_, sinks⟩
    cases direction
    · exact forward
    · exact reverse
  · intro kept
    rcases kept with ⟨selfKeyed, closed⟩
    exact ⟨⟨⟨fun key node found => ⟨selfKeyed key node found, closed.dependencies key node found⟩,
      closed.adjacency .forward⟩, closed.adjacency .reverse⟩, closed.sinks⟩

theorem harmless_cycleIssues_iff : Harmless settings (cycleIssues graph) ↔ graph.Acyclic := by
  rw [← Graph.cycle?_eq_none_iff, cycleIssues]
  cases graph.cycle? <;> simp [Harmless, Issue.grade]

theorem harmless_unknownIssues_iff :
    Harmless settings (unknownIssues graph partition) ↔
      ∀ id ∈ partition.listed, graph.contains id = true := by
  rw [unknownIssues_eq, harmless_map_iff fun _ => rfl]
  simp [listed]

theorem harmless_repeatedNodeIssues_iff :
    Harmless settings (repeatedNodeIssues graph partition) ↔
      ∀ key, graph.contains key = true → partition.listed.count key ≤ 1 := by
  rw [repeatedNodeIssues_eq, harmless_map_iff fun _ => rfl, Ids.repeated_eq_nil_iff, List.nodup_iff_count]
  apply forall_congr'
  intro key
  by_cases known : graph.contains key = true
  · rw [List.count_filter known]
    simp [known]
  · have absent : (partition.listed.filter graph.contains).count key = 0 :=
      List.count_eq_zero.2 fun member => known (List.mem_filter.1 member).2
    simp [absent, known]

theorem harmless_uncoveredIssues_iff :
    Harmless settings (uncoveredIssues graph partition) ↔
      (settings.fullCoverage = true → ∀ key, graph.contains key = true → key ∈ partition.listed) := by
  rw [harmless_iff (settings.fullCoverage = true) fun issue member => by
    obtain ⟨_, _, rfl⟩ := List.mem_map.1 member
    simp [Issue.grade]]
  simp only [uncoveredIssues_eq, List.map_eq_nil_iff, List.filter_eq_nil_iff, Graph.mem_keys, decide_eq_true_eq,
    not_not]

theorem harmless_entryIssues_iff :
    Harmless settings (entryIssues partition) ↔ (partition.regions.map Region.id).Nodup := by
  rw [entryIssues, harmless_append]
  -- chains that share an id are worth a warning only
  refine (and_iff_right (harmless_of_warnings fun issue member => ?_)).trans
    ((harmless_map_iff fun _ => rfl).trans Ids.repeated_eq_nil_iff)
  obtain ⟨_, _, rfl⟩ := List.mem_map.1 member
  rfl

theorem joinIssue?_eq_some {region : Region} {issue : Issue} (found : joinIssue? region = some issue) :
    issue = .joinMismatch region.id (Ids.difference region.joins region.lastBatch) := by
  simp only [joinIssue?] at found
  split at found
  · cases found
  · exact (Option.some.inj found).symm

theorem harmless_joinIssues_iff :
    Harmless settings (partition.regions.filterMap joinIssue?) ↔
      (settings.joinPolicy = .enforce → ∀ region ∈ partition.regions, region.joins ≠ [] →
        ∀ id, id ∈ region.joins ↔ id ∈ region.lastBatch) := by
  rw [harmless_iff (settings.joinPolicy = .enforce) fun issue member => by
    obtain ⟨_, _, found⟩ := List.mem_filterMap.1 member
    rw [joinIssue?_eq_some found, Issue.grade]
    cases settings.joinPolicy <;> simp]
  simp only [List.filterMap_eq_nil_iff, joinIssue?_eq_none_iff]

theorem chainOrderIssue?_eq_some_iff {chain : Chain} {previous current : String} {issue : Issue} :
    chainOrderIssue? graph chain previous current = some issue ↔
      ∃ before after, graph.find? previous = some before ∧ graph.find? current = some after ∧
        before.id ∉ after.deps ∧ issue = .chainOrder chain.id before.id after.id := by
  cases first : graph.find? previous with
  | none => simp [chainOrderIssue?, first]
  | some before =>
    cases second : graph.find? current with
    | none => simp [chainOrderIssue?, first, second]
    | some after =>
      by_cases depends : before.id ∈ after.deps <;>
        simp [chainOrderIssue?, first, second, Node.dependsOn, depends, eq_comm]

theorem batchOrderIssue?_eq_some_iff {region : Region} {batch : Nat} {node dependency : String} {issue : Issue} :
    batchOrderIssue? region batch node dependency = some issue ↔
      ∃ other, region.batchOf? dependency = some other ∧ batch ≤ other ∧
        issue = .batchOrder region.id batch node other dependency := by
  cases found : region.batchOf? dependency with
  | none => simp [batchOrderIssue?, found]
  | some other =>
    by_cases earlier : other < batch
    · have late : ¬ batch ≤ other := by omega
      simp [batchOrderIssue?, found, earlier, late]
    · have late : batch ≤ other := by omega
      simp [batchOrderIssue?, found, earlier, late, eq_comm]

theorem chainOrderIssue?_grade {chain : Chain} {previous current : String} {issue : Issue}
    (found : chainOrderIssue? graph chain previous current = some issue) :
    issue.grade settings = some .warning := by
  obtain ⟨_, _, _, _, _, rfl⟩ := chainOrderIssue?_eq_some_iff.1 found
  rfl

theorem batchOrderIssue?_grade {region : Region} {batch : Nat} {node dependency : String} {issue : Issue}
    (found : batchOrderIssue? region batch node dependency = some issue) :
    issue.grade settings = some .warning := by
  obtain ⟨_, _, _, rfl⟩ := batchOrderIssue?_eq_some_iff.1 found
  rfl

theorem harmless_chainOrderIssues (chain : Chain) : Harmless settings (chainOrderIssues graph chain) :=
  harmless_of_warnings fun _ member => by
    obtain ⟨_, _, found⟩ := List.mem_filterMap.1 member
    exact chainOrderIssue?_grade found

theorem harmless_batchOrderIssues (region : Region) :
    Harmless settings (batchOrderIssues graph region) := by
  apply harmless_of_warnings
  intro issue member
  obtain ⟨⟨nodes, batch⟩, _, inBatch⟩ := List.mem_flatMap.1 member
  obtain ⟨node, _, ofNode⟩ := List.mem_flatMap.1 inBatch
  cases stored : graph.find? node with
  | none => simp [stored] at ofNode
  | some found =>
    simp only [stored] at ofNode
    obtain ⟨_, _, order⟩ := List.mem_filterMap.1 ofNode
    exact batchOrderIssue?_grade order

theorem harmless_emptyChainIssues (chains : List Chain) :
    Harmless settings (chains.filterMap emptyChainIssue?) := by
  apply harmless_of_warnings
  intro issue member
  obtain ⟨chain, _, found⟩ := List.mem_filterMap.1 member
  simp only [emptyChainIssue?] at found
  split at found
  · cases found
    rfl
  · cases found

theorem harmless_emptyBatchIssues (region : Region) : Harmless settings (emptyBatchIssues region) := by
  apply harmless_of_warnings
  intro issue member
  simp only [emptyBatchIssues] at member
  split at member
  · cases List.mem_singleton.1 member
    rfl
  · obtain ⟨_, _, rfl⟩ := List.mem_map.1 member
    rfl

/-- Taken together, the checks are harmless exactly where partition and graph are consistent. -/
theorem harmless_issues_iff :
    Harmless settings (issues graph partition) ↔ Consistent settings graph partition := by
  simp only [issues, harmless_append, harmless_flatMap, harmless_referenceIssues_iff,
    harmless_cycleIssues_iff, harmless_unknownIssues_iff, harmless_repeatedNodeIssues_iff,
    harmless_uncoveredIssues_iff, harmless_entryIssues_iff, harmless_joinIssues_iff,
    harmless_chainOrderIssues, harmless_batchOrderIssues, harmless_emptyChainIssues,
    harmless_emptyBatchIssues, implies_true, and_true]
  constructor
  · intro silent
    rcases silent with ⟨⟨⟨⟨⟨⟨⟨selfKeyed, closed⟩, acyclic⟩, known⟩, once⟩, coverage⟩, regions⟩, joins⟩
    exact ⟨closed, selfKeyed, acyclic, known, once, regions, joins, coverage⟩
  · intro consistent
    exact ⟨⟨⟨⟨⟨⟨⟨consistent.selfKeyed, consistent.closed⟩, consistent.acyclic⟩, consistent.known⟩,
      consistent.once⟩, consistent.coverage⟩, consistent.regions⟩, consistent.joins⟩

theorem consistent_of_accepted (accepted : (partition.review settings graph).hasErrors = false) :
    Consistent settings graph partition :=
  harmless_issues_iff.1 (Report.hasErrors_ofIssues_eq_false_iff.1 accepted)

/-- A review finds no error exactly where partition and graph are consistent. -/
theorem hasErrors_review_eq_false_iff (settings : Settings) (graph : Graph) (partition : Partition) :
    (partition.review settings graph).hasErrors = false ↔ Consistent settings graph partition :=
  Report.hasErrors_ofIssues_eq_false_iff.trans harmless_issues_iff

end

end Partition

end Orchestration
