import Mathlib.Data.Fintype.Card
import Mathlib.Data.Fintype.EquivFin
import Orchestration.Graph.Release

/-! Releasing a graph in dependency order. One round decrements the counters of one node's
dependents, so every counter stays the number of prerequisites that are not yet released.
Exactly those nodes are released in the end from which no cycle can be reached. -/

set_option autoImplicit false

namespace Orchestration

open Relation

namespace Graph

variable {graph : Graph}

theorem mem_prerequisites {node : Node} {id : String} :
    id ∈ graph.prerequisites node ↔ id ∈ node.deps ∧ graph.contains id = true := by
  simp [prerequisites]

theorem nodup_eraseDups (ids : List String) : ids.eraseDups.Nodup := by
  -- the recursion filters the tail, so the induction is on the length
  induction length : ids.length using Nat.strong_induction_on generalizing ids with
  | _ length ih =>
    cases ids with
    | nil => simp
    | cons id rest =>
      rw [List.eraseDups_cons, List.nodup_cons]
      have shorter : (rest.filter fun other => !other == id).length < (id :: rest).length :=
        Nat.lt_succ_of_le (List.length_filter_le _ _)
      exact ⟨by simp, ih _ (length ▸ shorter) _ rfl⟩

theorem nodup_prerequisites (graph : Graph) (node : Node) : (graph.prerequisites node).Nodup :=
  nodup_eraseDups _

theorem dependsOn_iff {key dependency : String} :
    graph.DependsOn key dependency ↔
      ∃ node, graph.find? key = some node ∧ dependency ∈ graph.prerequisites node := by
  simp [DependsOn, mem_prerequisites]

theorem DependsOn.contains_left {key dependency : String}
    (depends : graph.DependsOn key dependency) : graph.contains key = true := by
  obtain ⟨node, found, _⟩ := depends
  exact contains_iff.2 ⟨node, found⟩

theorem DependsOn.contains_right {key dependency : String}
    (depends : graph.DependsOn key dependency) : graph.contains dependency = true := by
  obtain ⟨_, _, _, known⟩ := depends
  exact known

/-- No node depends on itself, directly or through others. -/
def Acyclic (graph : Graph) : Prop :=
  ∀ key, ¬ TransGen graph.DependsOn key key

/-- Every chain of dependencies that starts at a node comes to an end. -/
def Grounded (graph : Graph) : String → Prop :=
  Acc fun dependency key => graph.DependsOn key dependency

theorem Grounded.of_reflTransGen {key other : String} (grounded : graph.Grounded key)
    (reach : ReflTransGen graph.DependsOn key other) : graph.Grounded other := by
  induction reach with
  | refl => exact grounded
  | tail _ last ih => exact ih.inv last

theorem Grounded.not_onCycle {key : String} (grounded : graph.Grounded key) :
    ¬ TransGen graph.DependsOn key key := by
  induction grounded with
  | intro key _ ih =>
    intro cycle
    obtain ⟨next, first, rest⟩ := TransGen.head'_iff.1 cycle
    exact ih next first (TransGen.tail' rest first)

/-- A graph has finitely many nodes, so dependencies go on for ever only around a cycle. -/
theorem grounded_iff {key : String} :
    graph.Grounded key ↔
      ∀ other, ReflTransGen graph.DependsOn key other → ¬ TransGen graph.DependsOn other other := by
  refine ⟨fun grounded other reach => (grounded.of_reflTransGen reach).not_onCycle, fun free => ?_⟩
  -- what a node reaches is stored in the graph, hence finite, and ordered where it has no cycle
  let Reached := { other // ReflTransGen graph.DependsOn key other }
  have stored : ∀ other : Reached, other.val ∈ key :: graph.nodes.keys := by
    intro reached
    rcases reached with ⟨other, reach⟩
    cases reach with
    | refl => exact List.mem_cons_self
    | tail _ last => exact List.mem_cons_of_mem key (mem_keys.2 last.contains_right)
  have : Finite Reached :=
    Finite.of_injective (β := { id // id ∈ key :: graph.nodes.keys })
      (fun other => ⟨other.val, stored other⟩) fun _ _ same => Subtype.ext (Subtype.mk.inj same)
  let Below (dependency user : Reached) : Prop := TransGen graph.DependsOn user.val dependency.val
  have : IsTrans Reached Below := ⟨fun _ _ _ first second => second.trans first⟩
  have : Std.Irrefl Below := ⟨fun other cycle => free other.val other.property cycle⟩
  have founded : WellFounded Below := Finite.wellFounded_of_trans_of_irrefl Below
  have settled : ∀ other : Reached, graph.Grounded other.val := fun other => by
    induction other using founded.induction with
    | _ other ih =>
      exact Acc.intro _ fun next depends =>
        ih ⟨next, other.property.tail depends⟩ (TransGen.single depends)
  exact settled ⟨key, .refl⟩

theorem acyclic_iff : graph.Acyclic ↔ ∀ key, graph.contains key = true → graph.Grounded key := by
  constructor
  · exact fun acyclic key _ => grounded_iff.2 fun other _ => acyclic other
  · intro grounded key cycle
    obtain ⟨_, first, _⟩ := TransGen.head'_iff.1 cycle
    exact (grounded key first.contains_left).not_onCycle cycle

theorem mem_dependents_iff {key user : String} (known : graph.contains key = true) :
    user ∈ graph.nodes.dependents key ↔ graph.DependsOn user key := by
  simp [NodeMap.mem_dependents, DependsOn, find?, known]

theorem nodup_keys (graph : Graph) : graph.nodes.keys.Nodup :=
  Std.TreeMap.nodup_keys

theorem nodup_dependents (graph : Graph) (key : String) : (graph.nodes.dependents key).Nodup :=
  (graph.nodup_keys).sublist (NodeMap.dependents_sublist graph.nodes key)

end Graph

namespace Release

theorem getElem?_blockers_unblock (release : Release) (key other : String) :
    (release.unblock key).blockers[other]? =
      if other = key then release.blockers[other]?.map (· - 1) else release.blockers[other]? := by
  unfold unblock
  split
  next left found =>
    simp only [Std.TreeMap.getElem?_insert, Std.LawfulEqCmp.compare_eq_iff_eq]
    by_cases same : other = key
    · subst same
      simp [found]
    · simp [same, Ne.symm same]
  next idle =>
    by_cases same : other = key
    · subst same
      cases found : release.blockers[other]? with
      | none => simp
      | some count =>
        cases count with
        | zero => simp
        | succ left => exact absurd found (idle left)
    · simp [same]

theorem ready_unblock (release : Release) (key : String) :
    (release.unblock key).ready =
      release.ready ++ if release.blockers[key]? = some 1 then [key] else [] := by
  unfold unblock
  split
  next left found => by_cases last : left = 0 <;> simp [found, last]
  next idle =>
    have waiting : release.blockers[key]? ≠ some 1 := idle 0
    simp [waiting]

theorem getElem?_blockers_foldl_unblock {keys : List String} (distinct : keys.Nodup)
    (release : Release) (other : String) :
    (keys.foldl unblock release).blockers[other]? =
      if other ∈ keys then release.blockers[other]?.map (· - 1) else release.blockers[other]? := by
  induction keys generalizing release with
  | nil => simp
  | cons key rest ih =>
    obtain ⟨fresh, distinct⟩ := List.nodup_cons.1 distinct
    rw [List.foldl_cons, ih distinct, getElem?_blockers_unblock]
    by_cases same : other = key
    · subst same
      simp [fresh]
    · simp [same]

theorem ready_foldl_unblock {keys : List String} (distinct : keys.Nodup) (release : Release) :
    (keys.foldl unblock release).ready =
      release.ready ++ keys.filter (release.blockers[·]? = some 1) := by
  induction keys generalizing release with
  | nil => simp
  | cons key rest ih =>
    obtain ⟨fresh, distinct⟩ := List.nodup_cons.1 distinct
    have untouched : rest.filter ((release.unblock key).blockers[·]? = some 1) =
        rest.filter (release.blockers[·]? = some 1) := by
      apply List.filter_congr
      intro other member
      have apart : other ≠ key := fun same => fresh (same ▸ member)
      rw [getElem?_blockers_unblock, if_neg apart]
    rw [List.foldl_cons, ih distinct, ready_unblock, untouched, List.filter_cons]
    by_cases last : release.blockers[key]? = some 1 <;> simp [last]

theorem released_foldl_unblock (keys : List String) (release : Release) :
    (keys.foldl unblock release).released = release.released := by
  induction keys generalizing release with
  | nil => rfl
  | cons key rest ih => rw [List.foldl_cons, ih, released_unblock]

/-- What holds of a release before and after every round: each counter is the number of prerequisites not yet
released, and the nodes at zero are those released or ready. -/
structure Faithful (graph : Graph) (release : Release) : Prop where
  blockers : ∀ key, release.blockers[key]? =
    (graph.find? key).map fun node => (graph.prerequisites node).countP (· ∉ release.released)
  queued : ∀ key, key ∈ release.released ++ release.ready ↔ release.blockers[key]? = some 0
  once : (release.released ++ release.ready).Nodup
  grounded : ∀ key ∈ release.released, graph.Grounded key

variable {graph : Graph} {release : Release}

theorem Faithful.start (graph : Graph) : Faithful graph (start graph) where
  blockers key := by
    have whole : ∀ node : Node, (graph.prerequisites node).countP
        (fun id => decide (id ∉ (Release.start graph).released)) = (graph.prerequisites node).length :=
      fun node => List.countP_eq_length.2 fun id _ => by simp [Release.start]
    simp only [whole]
    exact Std.TreeMap.getElem?_map
  queued key := by
    simp [Release.start, Std.TreeMap.getElem?_map, Std.TreeMap.mem_toList_iff_getElem?_eq_some]
  once := graph.nodup_keys.sublist (filter_sublist_keys _ _)
  grounded _ member := absurd member List.not_mem_nil

theorem Faithful.prerequisites_released (faithful : Faithful graph release) {key dependency : String}
    (zero : release.blockers[key]? = some 0) (depends : graph.DependsOn key dependency) :
    dependency ∈ release.released := by
  obtain ⟨node, found, member⟩ := Graph.dependsOn_iff.1 depends
  rw [faithful.blockers, found, Option.map_some, Option.some.injEq, List.countP_eq_zero] at zero
  simpa using zero dependency member

theorem countP_unreleased_append (node : Node) {released : List String} {key : String}
    (fresh : key ∉ released) :
    (graph.prerequisites node).countP (· ∉ released ++ [key]) =
      (graph.prerequisites node).countP (· ∉ released) -
        if key ∈ graph.prerequisites node then 1 else 0 := by
  have parted : ∀ ids : List String, ids.countP (· ∉ released) =
      ids.countP (· ∉ released ++ [key]) + ids.count key := by
    intro ids
    induction ids with
    | nil => rfl
    | cons id rest ih =>
      simp only [List.countP_cons, List.count_cons, ih, List.mem_append, List.mem_singleton]
      by_cases same : id = key
      · subst same
        simp [fresh]
        omega
      · by_cases old : id ∈ released <;> simp [same, old]
        omega
  have single : (graph.prerequisites node).count key =
      if key ∈ graph.prerequisites node then 1 else 0 :=
    (graph.nodup_prerequisites node).count
  rw [parted, single]
  omega

theorem Faithful.contains (faithful : Faithful graph release) {key : String}
    (member : key ∈ release.released ++ release.ready) : graph.contains key = true := by
  have zero := (faithful.queued key).1 member
  rw [faithful.blockers] at zero
  obtain ⟨node, found, _⟩ := Option.map_eq_some_iff.1 zero
  exact Graph.contains_iff.2 ⟨node, found⟩

section

variable {key : String} {waiting : List String} (queue : release.ready = key :: waiting)
include queue

theorem step_eq_foldl : step graph release = (graph.nodes.dependents key).foldl unblock
    { release with ready := waiting, released := release.released ++ [key] } := by
  simp only [step, queue]

theorem getElem?_blockers_step (other : String) :
    (step graph release).blockers[other]? =
      if other ∈ graph.nodes.dependents key then release.blockers[other]?.map (· - 1)
      else release.blockers[other]? := by
  rw [step_eq_foldl queue, getElem?_blockers_foldl_unblock (graph.nodup_dependents key)]

theorem ready_step : (step graph release).ready =
    waiting ++ (graph.nodes.dependents key).filter (release.blockers[·]? = some 1) := by
  rw [step_eq_foldl queue, ready_foldl_unblock (graph.nodup_dependents key)]

theorem released_step : (step graph release).released = release.released ++ [key] := by
  rw [step_eq_foldl queue, released_foldl_unblock]

variable (faithful : Faithful graph release)
include faithful

theorem Faithful.once_of_ready : (release.released ++ key :: waiting).Nodup :=
  queue ▸ faithful.once

theorem Faithful.not_mem_released : key ∉ release.released := fun member =>
  (List.nodup_append.1 (faithful.once_of_ready queue)).2.2 key member key List.mem_cons_self rfl

theorem Faithful.blockers_step (other : String) :
    (Release.step graph release).blockers[other]? = (graph.find? other).map fun node =>
      (graph.prerequisites node).countP (· ∉ (Release.step graph release).released) := by
  have known : graph.contains key = true := faithful.contains (by simp [queue])
  rw [getElem?_blockers_step queue, released_step queue, faithful.blockers]
  cases found : graph.find? other with
  | none => simp
  | some node =>
    have depends : other ∈ graph.nodes.dependents key ↔ key ∈ graph.prerequisites node := by
      rw [Graph.mem_dependents_iff known, Graph.dependsOn_iff]
      simp [found]
    simp only [Option.map_some, countP_unreleased_append node (faithful.not_mem_released queue)]
    by_cases member : key ∈ graph.prerequisites node <;> simp [depends, member]

theorem Faithful.queued_step (other : String) :
    other ∈ (Release.step graph release).released ++ (Release.step graph release).ready ↔
      (Release.step graph release).blockers[other]? = some 0 := by
  have before := faithful.queued other
  rw [queue] at before
  rw [released_step queue, ready_step queue, getElem?_blockers_step queue]
  -- a counter comes to zero from one, or it has been zero and the node was queued before
  by_cases depends : other ∈ graph.nodes.dependents key
  · cases count : release.blockers[other]? with
    | none => simp_all
    | some left => cases left <;> simp_all
  · simp_all

theorem Faithful.once_step :
    ((Release.step graph release).released ++ (Release.step graph release).ready).Nodup := by
  rw [released_step queue, ready_step queue, List.append_assoc, List.singleton_append, ← List.cons_append,
    ← List.append_assoc]
  refine List.nodup_append.2 ⟨faithful.once_of_ready queue, (graph.nodup_dependents key).filter _, ?_⟩
  -- what becomes ready had a counter of one, what was queued had none
  intro other old new member same
  subst same
  have was := (faithful.queued other).1 (queue ▸ old)
  simp [was] at member

theorem Faithful.grounded_step : ∀ other ∈ (Release.step graph release).released, graph.Grounded other := by
  intro other member
  rw [released_step queue, List.mem_append, List.mem_singleton] at member
  rcases member with old | rfl
  · exact faithful.grounded other old
  · have zero : release.blockers[other]? = some 0 := (faithful.queued other).1 (by simp [queue])
    exact Acc.intro _ fun dependency depends =>
      faithful.grounded dependency (faithful.prerequisites_released zero depends)

end

theorem Faithful.step (faithful : Faithful graph release) : Faithful graph (step graph release) := by
  cases queue : release.ready with
  | nil => simpa [Release.step, queue] using faithful
  | cons key waiting =>
    exact ⟨faithful.blockers_step queue, faithful.queued_step queue, faithful.once_step queue,
      faithful.grounded_step queue⟩

theorem Faithful.run (faithful : Faithful graph release) (rounds : Nat) :
    Faithful graph (run graph rounds release) := by
  induction rounds with
  | zero => exact faithful
  | succ rounds ih => rw [run_succ]; exact ih.step

/-- No node is released or made ready twice, so there are never more of them than nodes. -/
theorem Faithful.length_le (faithful : Faithful graph release) :
    (release.released ++ release.ready).length ≤ graph.size := by
  rw [Graph.size, ← Std.TreeMap.length_keys]
  apply faithful.once.length_le_of_subset
  intro key member
  exact Graph.mem_keys.2 (faithful.contains member)

/-- Every round releases a node as long as one is ready. -/
theorem ready_run_eq_nil_or (graph : Graph) (rounds : Nat) :
    (run graph rounds (start graph)).ready = [] ∨
      (run graph rounds (start graph)).released.length = rounds := by
  induction rounds with
  | zero => exact .inr rfl
  | succ rounds ih =>
    rw [run_succ]
    cases queue : (run graph rounds (start graph)).ready with
    | nil => left; simp [step, queue]
    | cons key waiting =>
      have count := ih.resolve_left (by simp [queue])
      exact .inr (by rw [released_step queue, List.length_append, count, List.length_singleton])

end Release

namespace Graph

variable {graph : Graph}

theorem faithful_release (graph : Graph) : graph.release.Faithful graph :=
  (Release.Faithful.start graph).run graph.size

theorem ready_release (graph : Graph) : graph.release.ready = [] := by
  have bound := graph.faithful_release.length_le
  -- unless some round found no node ready, there have been enough rounds to release them all
  rcases Release.ready_run_eq_nil_or graph graph.size with done | full
  · exact done
  · have all : graph.release.released.length = graph.size := full
    rw [List.length_append] at bound
    exact List.length_eq_zero_iff.1 (by omega)

/-- The nodes released in the end are those that reach no cycle. -/
theorem mem_released_iff {key : String} :
    key ∈ graph.release.released ↔ graph.contains key = true ∧ graph.Grounded key := by
  have faithful := graph.faithful_release
  constructor
  · intro member
    exact ⟨faithful.contains (List.mem_append_left _ member), faithful.grounded key member⟩
  · intro both
    rcases both with ⟨known, grounded⟩
    -- prerequisites are released by induction, and of the nodes at zero none is merely ready
    induction grounded with
    | intro key _ ih =>
      obtain ⟨node, found⟩ := contains_iff.1 known
      have behind : ∀ id ∈ graph.prerequisites node, id ∈ graph.release.released := fun id member =>
        have depends := dependsOn_iff.2 ⟨node, found, member⟩
        ih id depends depends.contains_right
      have zero : graph.release.blockers[key]? = some 0 := by
        rw [faithful.blockers, found, Option.map_some, Option.some.injEq, List.countP_eq_zero]
        simpa using behind
      simpa [graph.ready_release] using (faithful.queued key).2 zero

/-- The release finds fault with a graph exactly when its dependencies form a cycle. -/
theorem cycle?_eq_none_iff : graph.cycle? = none ↔ graph.Acyclic := by
  have faithful := graph.faithful_release
  have once : graph.release.released.Nodup := (List.nodup_append.1 faithful.once).1
  have stored : graph.release.released ⊆ graph.nodes.keys := fun key member =>
    mem_keys.2 (mem_released_iff.1 member).1
  have full : graph.cycle? = none ↔ graph.size ≤ graph.release.released.length := by
    simp [cycle?]
  rw [full, acyclic_iff, size, ← Std.TreeMap.length_keys]
  constructor
  · intro enough key known
    have all : graph.nodes.keys ⊆ graph.release.released :=
      ((List.subperm_of_subset once stored).perm_of_length_le enough).symm.subset
    exact (mem_released_iff.1 (all (mem_keys.2 known))).2
  · intro grounded
    apply graph.nodup_keys.length_le_of_subset
    intro key member
    have known := mem_keys.1 member
    exact mem_released_iff.2 ⟨known, grounded key known⟩

end Graph

end Orchestration
