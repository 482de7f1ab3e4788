import Orchestration.Proofs.Categories

/-! What a review says about cycles. The release of a graph leaves blocked the nodes from which a
cycle of dependencies is reached, and a review with such nodes names them in one error. -/

set_option autoImplicit false

namespace Orchestration

open Relation

namespace Graph

variable {graph : Graph}

/-- The node lies on a cycle of dependencies, or it depends on a node that does. -/
def ReachesCycle (graph : Graph) (key : String) : Prop :=
  ∃ other, ReflTransGen graph.DependsOn key other ∧ TransGen graph.DependsOn other other

theorem ReachesCycle.contains {key : String} (reaches : graph.ReachesCycle key) :
    graph.contains key = true := by
  obtain ⟨other, reach, cycle⟩ := reaches
  obtain ⟨next, first, _⟩ := TransGen.head'_iff.1 (TransGen.trans_right reach cycle)
  exact first.contains_left

theorem reachesCycle_iff_not_grounded {key : String} : graph.ReachesCycle key ↔ ¬ graph.Grounded key := by
  simp only [grounded_iff, ReachesCycle, not_forall, not_not, exists_prop]

/-- A node of the graph is blocked in the end exactly if it has not been released. -/
theorem mem_blocked_release {key : String} :
    key ∈ graph.release.blocked ↔ graph.contains key = true ∧ key ∉ graph.release.released := by
  have faithful := graph.faithful_release
  have queued := faithful.queued key
  rw [graph.ready_release, List.append_nil] at queued
  have counted := faithful.blockers key
  rw [Release.mem_blocked, contains_iff, queued, counted]
  cases graph.find? key with
  | none => simp
  | some node =>
    cases (graph.prerequisites node).countP (· ∉ graph.release.released) <;> simp

theorem mem_blocked_release_iff_reachesCycle {key : String} :
    key ∈ graph.release.blocked ↔ graph.ReachesCycle key := by
  rw [mem_blocked_release, mem_released_iff, reachesCycle_iff_not_grounded]
  constructor
  · intro blocked grounded
    exact blocked.2 ⟨blocked.1, grounded⟩
  · intro unfounded
    have known := (reachesCycle_iff_not_grounded.2 unfounded).contains
    exact ⟨known, fun released => unfounded released.2⟩

theorem cycle?_eq (graph : Graph) :
    graph.Acyclic ∧ graph.cycle? = none ∨ ¬ graph.Acyclic ∧ graph.cycle? = some graph.release.blocked := by
  rw [← cycle?_eq_none_iff]
  simp only [cycle?]
  split <;> simp

end Graph

namespace Partition

/-- A review reports a cycle exactly where there is one, and then once: its error names, in ascending
order, the nodes on a cycle and all that depend on such a node. -/
theorem cycle_reported (settings : Settings) (graph : Graph) (partition : Partition) :
    ∃ nodes : List String, nodes.Pairwise (· < ·) ∧ (∀ key, key ∈ nodes ↔ graph.ReachesCycle key) ∧
      (graph.Acyclic ∧ (partition.review settings graph).inCategory .cycle = [] ∨
        ¬ graph.Acyclic ∧ ∃ finding, (partition.review settings graph).inCategory .cycle = [finding] ∧
          finding.severity = .error ∧ Reportable.nodes finding.issue = nodes) := by
  refine ⟨graph.release.blocked, graph.release.pairwise_blocked,
    fun key => Graph.mem_blocked_release_iff_reachesCycle, ?_⟩
  rw [inCategory_review, issuesIn, cycleIssues]
  rcases graph.cycle?_eq with ⟨acyclic, none⟩ | ⟨cyclic, some⟩
  · left
    rw [none]
    exact ⟨acyclic, rfl⟩
  · right
    rw [some]
    exact ⟨cyclic, ⟨.error, .cycle graph.release.blocked⟩, rfl, rfl, rfl⟩

/-- Two nodes that wait for each other, one that waits for them, and one that waits for a stranger. -/
example :
    let nodes : List Node := [{ id := "a", deps := ["b", "b"] }, { id := "b", deps := ["a"] },
      { id := "c", deps := ["b"] }, { id := "d", deps := ["x"] }]
    (Graph.mk (.ofList (nodes.map fun node => (node.id, node))) ∅ ∅ []).cycle? = some ["a", "b", "c"] := by
  decide +kernel

end Partition

end Orchestration
