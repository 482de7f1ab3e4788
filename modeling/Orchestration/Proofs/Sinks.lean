import Mathlib.Order.WellFoundedSet
import Orchestration.Proofs.AssemblyReplies
import Orchestration.Proofs.Cycles

/-! Graphs that an assembly hands over. A review finds nothing wrong with what they refer to. Where it
finds no cycle either, the forward adjacency leads from every node to a sink. -/

set_option autoImplicit false

namespace Orchestration

open Relation

namespace Graph

variable {graph : Graph}

def LeadsTo (graph : Graph) (key next : String) : Prop :=
  ∃ ids, graph.forward[key]? = some ids ∧ next ∈ ids

/-- Going from nodes to those that depend on them comes to an end unless it comes round. -/
theorem Acyclic.wellFounded (acyclic : graph.Acyclic) : WellFounded graph.DependsOn := by
  have strict : IsStrictOrder String (TransGen graph.DependsOn) :=
    { irrefl := acyclic, trans := fun _ _ _ => TransGen.trans }
  have finite : {key | key ∈ graph.nodes.keys}.Finite := List.finite_toSet _
  have founded := Set.wellFoundedOn_iff.1 (finite.wellFoundedOn (r := TransGen graph.DependsOn))
  refine Subrelation.wf (fun {user dependency} depends => ?_) founded
  exact ⟨.single depends, mem_keys.2 depends.contains_left, mem_keys.2 depends.contains_right⟩

end Graph

namespace Partition

variable {settings : Settings} {graph : Graph} {partition : Partition}

theorem grade_of_mem_referenceIssues {issue : Issue} (member : issue ∈ referenceIssues graph) :
    issue.grade settings = some .error := by
  rcases category_of_mem_referenceIssues member with category | category
  · cases issue with
    | dangling => rfl
    | _ => cases category
  · cases issue with
    | misfiled => rfl
    | _ => cases category

theorem referenceIssues_eq_nil_iff : referenceIssues graph = [] ↔ graph.SelfKeyed ∧ graph.Closed := by
  have harmless : Harmless {} (referenceIssues graph) ↔ graph.SelfKeyed ∧ graph.Closed :=
    harmless_referenceIssues_iff
  rw [← harmless]
  exact (harmless_iff_eq_nil fun _ => grade_of_mem_referenceIssues).symm

/-- The check of references is the only one that raises issues of its two categories. -/
theorem count_review_of_referenceIssues (silent : referenceIssues graph = []) :
    (partition.review settings graph).count .danglingReference = 0 ∧
      (partition.review settings graph).count .keyMismatch = 0 := by
  constructor
  · rw [count_review_eq_zero_iff (by decide), issuesIn, silent]
    rfl
  · rw [count_review_eq_zero_iff (by decide), issuesIn, silent]
    rfl

theorem acyclic_of_count_review (silent : (partition.review settings graph).count .cycle = 0) :
    graph.Acyclic := by
  rw [count_review_eq_zero_iff (by decide), issuesIn, cycleIssues, Option.toList_eq_nil_iff,
    Option.map_eq_none_iff] at silent
  exact Graph.cycle?_eq_none_iff.1 silent

end Partition

namespace Assembly

open Service (after)

variable {assembly : Assembly} {graph : Graph}

theorem contains_graph_iff {id : String} : assembly.graph.contains id = true ↔ id ∈ assembly.nodes :=
  Std.TreeMap.contains_iff_mem

theorem contains_of_mem_dependents {id key : String} (member : key ∈ assembly.nodes.dependents id) :
    assembly.graph.contains key = true := by
  obtain ⟨node, found, _⟩ := NodeMap.mem_dependents.1 member
  exact Graph.contains_iff.2 ⟨node, found⟩

/-- Everything in a graph that is handed over refers to nodes that were gathered. -/
theorem closed_of_build (built : assembly.build = .ok graph) : graph.Closed := by
  obtain ⟨complete, rfl⟩ := build_eq_ok_iff.1 built
  have dependencies : ∀ key node, assembly.graph.find? key = some node →
      ∀ id ∈ node.deps, assembly.graph.contains id = true := fun key node found id member =>
    contains_graph_iff.2 (missing?_eq_none_iff.1 complete key node found id member)
  constructor
  case dependencies => exact dependencies
  case adjacency =>
    intro direction key ids listed
    cases direction with
    | forward =>
      have stored := (getElem?_forward_graph complete key).symm.trans listed
      obtain ⟨node, found, rfl⟩ := Option.map_eq_some_iff.1 stored
      exact ⟨Graph.contains_iff.2 ⟨node, found⟩, fun _ => contains_of_mem_dependents⟩
    | reverse =>
      have stored := (getElem?_reverse_graph complete key).symm.trans listed
      obtain ⟨node, found, rfl⟩ := Option.map_eq_some_iff.1 stored
      refine ⟨Graph.contains_iff.2 ⟨node, found⟩, fun id member => ?_⟩
      exact dependencies key node found id (List.mem_eraseDups.1 member)
  case sinks =>
    intro id member
    exact contains_graph_iff.2 ((mem_sinks_graph complete).1 member).1

theorem Gathers.selfKeyed {nodes : List Node} (gathers : Gathers nodes assembly) : assembly.graph.SelfKeyed :=
  fun key node found => ((gathers.stored key node).1 found).2

/-- From a node whose dependents reach sinks a sink is reached, and a node without any is one. -/
theorem reaches_sink (complete : assembly.missing? = none) (acyclic : assembly.graph.Acyclic) {key : String}
    (known : assembly.graph.contains key = true) :
    ∃ sink ∈ assembly.graph.sinks, ReflTransGen assembly.graph.LeadsTo key sink := by
  induction key using acyclic.wellFounded.induction with
  | _ key ih =>
    cases dependents : assembly.nodes.dependents key with
    | nil => exact ⟨key, (mem_sinks_graph complete).2 ⟨contains_graph_iff.1 known, dependents⟩, .refl⟩
    | cons user rest =>
      have first : user ∈ assembly.nodes.dependents key := dependents ▸ List.mem_cons_self
      obtain ⟨node, found⟩ := Graph.contains_iff.1 known
      have leads : assembly.graph.LeadsTo key user := by
        refine ⟨_, (getElem?_forward_graph complete key).trans ?_, first⟩
        exact Option.map_eq_some_iff.2 ⟨node, found, rfl⟩
      have depends : assembly.graph.DependsOn user key := (Graph.mem_dependents_iff known).1 first
      obtain ⟨sink, member, path⟩ := ih user depends depends.contains_left
      exact ⟨sink, member, .head leads path⟩

/-- Whatever was asked before, a graph that is handed over passes the check of references against every
partition. If it also passes that for cycles, it has sinks unless it is empty, and every node leads to one. -/
theorem sinks_reached_of_built {requests : List Request} (built : (after serve {} requests).build = .ok graph)
    (settings : Settings) (partition : Partition) :
    (partition.review settings graph).count .danglingReference = 0 ∧
      (partition.review settings graph).count .keyMismatch = 0 ∧
      ((partition.review settings graph).count .cycle = 0 →
        (0 < graph.size → graph.sinks ≠ []) ∧
          ∀ key, graph.contains key = true →
            ∃ sink ∈ graph.sinks, ReflTransGen graph.LeadsTo key sink) := by
  obtain ⟨complete, rfl⟩ := build_eq_ok_iff.1 built
  have tidy := Partition.referenceIssues_eq_nil_iff.2
    ⟨(gathers_after requests).selfKeyed, closed_of_build built⟩
  obtain ⟨dangling, misfiled⟩ := Partition.count_review_of_referenceIssues tidy
  refine ⟨dangling, misfiled, fun silent => ?_⟩
  have acyclic := Partition.acyclic_of_count_review silent
  refine ⟨fun occupied => ?_, fun key => reaches_sink complete acyclic⟩
  rw [Graph.size, ← Std.TreeMap.length_keys] at occupied
  obtain ⟨key, member⟩ := List.exists_mem_of_length_pos occupied
  obtain ⟨sink, listed, _⟩ := reaches_sink complete acyclic (Graph.mem_keys.1 member)
  exact List.ne_nil_of_mem listed

def forked : List Request :=
  [.add { id := "left", deps := ["root", "root"] }, .add { id := "" }, .build,
    .add { id := "right", deps := ["root"] }, .add { id := "root" }]

theorem sinks_reached_forked : ∃ graph, (after serve {} forked).build = .ok graph ∧ 0 < graph.size ∧
    ((({} : Partition).review {} graph).count .danglingReference = 0 ∧
      (({} : Partition).review {} graph).count .cycle = 0) ∧
        graph.sinks = ["left", "right"] ∧
          ∃ sink ∈ graph.sinks, ReflTransGen graph.LeadsTo "root" sink := by
  obtain ⟨graph, built, acyclic, shape⟩ : ∃ graph, (after serve {} forked).build = .ok graph ∧
      (({} : Partition).review {} graph).count .cycle = 0 ∧
        0 < graph.size ∧ graph.sinks = ["left", "right"] ∧ graph.contains "root" = true :=
    ⟨_, rfl, by decide +kernel⟩
  obtain ⟨dangling, _, drains⟩ := sinks_reached_of_built built {} {}
  exact ⟨graph, built, shape.1, ⟨dangling, acyclic⟩, shape.2.1, (drains acyclic).2 "root" shape.2.2⟩

end Assembly

end Orchestration
