import Orchestration.Graph.Basic

/-! Releasing the nodes of a graph in dependency order. A node waits for each distinct
node of the graph it depends on; it is released when it waits for none. What is never
released lies on a cycle or depends on one. -/

set_option autoImplicit false

namespace Orchestration

/-- The nodes of the graph that a node depends on, each once, in declaration order. -/
def Graph.prerequisites (graph : Graph) (node : Node) : List String :=
  (node.deps.filter graph.contains).eraseDups

/-- How far the release of a graph has come: the nodes ready and not yet taken, for every node how many
prerequisites it still waits for, and the nodes taken, in order. -/
structure Release where
  ready : List String
  blockers : Std.TreeMap String Nat
  released : List String

namespace Release

def start (graph : Graph) : Release where
  ready :=
    (graph.nodes.toList.filter fun (_, node) => (graph.prerequisites node).isEmpty).map Prod.fst
  blockers := graph.nodes.map fun _ node => (graph.prerequisites node).length
  released := []

def unblock (release : Release) (key : String) : Release :=
  match release.blockers[key]? with
  | some (left + 1) =>
    { release with
      ready := if left = 0 then release.ready ++ [key] else release.ready
      blockers := release.blockers.insert key left }
  | _ => release

def step (graph : Graph) (release : Release) : Release :=
  match release.ready with
  | [] => release
  | key :: waiting =>
    (graph.nodes.dependents key).foldl unblock
      { release with ready := waiting, released := release.released ++ [key] }

def run (graph : Graph) : Nat → Release → Release
  | 0, release => release
  | rounds + 1, release => run graph rounds (step graph release)

def blocked (release : Release) : List String :=
  (release.blockers.toList.filter fun (_, count) => 0 < count).map Prod.fst

theorem released_unblock (release : Release) (key : String) :
    (release.unblock key).released = release.released := by
  unfold unblock
  split <;> rfl

theorem run_succ (graph : Graph) (rounds : Nat) (release : Release) :
    run graph (rounds + 1) release = step graph (run graph rounds release) := by
  induction rounds generalizing release with
  | zero => rfl
  | succ rounds ih => exact ih (step graph release)

theorem pairwise_blocked (release : Release) : release.blocked.Pairwise (· < ·) :=
  (pairwise_keys release.blockers).sublist (filter_sublist_keys _ _)

theorem mem_blocked {release : Release} {key : String} :
    key ∈ release.blocked ↔ ∃ count, release.blockers[key]? = some (count + 1) := by
  simp only [blocked, List.mem_map, List.mem_filter, Std.TreeMap.mem_toList_iff_getElem?_eq_some,
    decide_eq_true_eq, Prod.exists, exists_and_right, exists_eq_right]
  constructor
  · rintro ⟨count, found, positive⟩
    exact ⟨count - 1, by rwa [Nat.sub_add_cancel positive]⟩
  · rintro ⟨count, found⟩
    exact ⟨count + 1, found, Nat.succ_pos count⟩

end Release

namespace Graph

/-- The release carried as far as it goes: every round releases one node or changes
nothing, so as many rounds as there are nodes suffice. -/
def release (graph : Graph) : Release :=
  Release.run graph graph.size (Release.start graph)

def cycle? (graph : Graph) : Option (List String) :=
  let release := graph.release
  if release.released.length < graph.size then some release.blocked else none

end Graph

end Orchestration
