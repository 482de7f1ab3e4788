import Mathlib.Data.Finset.Dedup
import Mathlib.Data.Finset.Filter
import Orchestration.Proofs.Waits

/-! Counting down. A round of a release takes one node and tells its dependents one after another, and the
counter of each comes down by one. At every moment a counter is the number of nodes still awaited, and one
more while its node is still to be told; so no counter is decremented at zero, no node becomes ready twice,
and there are no more rounds than nodes. -/

set_option autoImplicit false

namespace Orchestration

def Graph.awaited (graph : Graph) (node : Node) (released : List String) : Finset String :=
  node.deps.toFinset.filter fun id => graph.contains id = true ∧ id ∉ released

theorem Graph.countP_prerequisites (graph : Graph) (node : Node) (released : List String) :
    (graph.prerequisites node).countP (· ∉ released) = (graph.awaited node released).card := by
  have distinct : ((graph.prerequisites node).filter (· ∉ released)).Nodup :=
    (graph.nodup_prerequisites node).filter _
  rw [List.countP_eq_length_filter, ← List.toFinset_card_of_nodup distinct]
  congr 1
  ext id
  simp [awaited, mem_prerequisites, and_assoc]

namespace Release

/-- The nodes that ever became ready, in that order. -/
def entered (release : Release) : List String :=
  release.released ++ release.ready

/-- The moments of a release: how many rounds have begun, how far it has come, and which dependents of the
last node taken are still to be told. -/
inductive Underway (graph : Graph) : Nat → Release → List String → Prop where
  | start : Underway graph 0 (start graph) []
  | take {rounds : Nat} {release : Release} {key : String} {waiting : List String} :
      Underway graph rounds release [] → release.ready = key :: waiting →
      Underway graph (rounds + 1) { release with ready := waiting, released := release.released ++ [key] }
        (graph.nodes.dependents key)
  | tell {rounds : Nat} {release : Release} {next : String} {untold : List String} :
      Underway graph rounds release (next :: untold) → Underway graph rounds (release.unblock next) untold

structure Expectant (release : Release) (untold : List String) : Prop where
  once : untold.Nodup
  waiting : ∀ key ∈ untold, ∃ left, release.blockers[key]? = some (left + 1)

theorem entered_unblock (release : Release) (key : String) :
    (release.unblock key).entered =
      release.entered ++ if release.blockers[key]? = some 1 then [key] else [] := by
  rw [entered, released_unblock, ready_unblock, ← List.append_assoc, ← entered]

theorem entered_prefix_foldl (untold : List String) (release : Release) :
    release.entered <+: (untold.foldl unblock release).entered := by
  induction untold generalizing release with
  | nil => exact List.prefix_rfl
  | cons next rest ih =>
    have grown : release.entered <+: (release.unblock next).entered :=
      ⟨_, (entered_unblock release next).symm⟩
    exact grown.trans (ih (release.unblock next))

variable {graph : Graph} {release : Release} {rounds : Nat} {untold : List String}

/-- A node taken is a prerequisite of each of its dependents, and had not been released. -/
theorem Faithful.expectant {key : String} {waiting : List String} (faithful : Faithful graph release)
    (queue : release.ready = key :: waiting) : Expectant
      { release with ready := waiting, released := release.released ++ [key] } (graph.nodes.dependents key) where
  once := graph.nodup_dependents key
  waiting := by
    intro other member
    have known : graph.contains key = true := faithful.contains (by simp [queue])
    obtain ⟨node, found, prerequisite⟩ := Graph.dependsOn_iff.1 ((Graph.mem_dependents_iff known).1 member)
    have positive : 0 < (graph.prerequisites node).countP (· ∉ release.released) :=
      List.countP_pos_iff.2 ⟨key, prerequisite, decide_eq_true (faithful.not_mem_released queue)⟩
    obtain ⟨left, count⟩ := Nat.exists_eq_succ_of_ne_zero positive.ne'
    refine ⟨left, ?_⟩
    rw [faithful.blockers, found, Option.map_some, count]

theorem Expectant.tell {next : String} (expectant : Expectant release (next :: untold)) :
    Expectant (release.unblock next) untold := by
  obtain ⟨fresh, once⟩ := List.nodup_cons.1 expectant.once
  refine ⟨once, fun other member => ?_⟩
  have apart : other ≠ next := fun same => fresh (same ▸ member)
  rw [getElem?_blockers_unblock, if_neg apart]
  exact expectant.waiting other (List.mem_cons_of_mem next member)

namespace Underway

/-- With the rest told as well, the release is where its rounds lead. -/
theorem foldl_eq_run (underway : Underway graph rounds release untold) :
    untold.foldl unblock release = run graph rounds (Release.start graph) := by
  induction underway with
  | start => rfl
  | take _ queue ih => rw [run_succ, ← ih, List.foldl_nil, step_eq_foldl queue]
  | tell _ ih => exact ih

theorem faithful (underway : Underway graph rounds release untold) :
    Faithful graph (untold.foldl unblock release) := by
  rw [underway.foldl_eq_run]
  exact (Faithful.start graph).run rounds

theorem expectant (underway : Underway graph rounds release untold) : Expectant release untold := by
  induction underway with
  | start => exact ⟨List.nodup_nil, fun _ member => absurd member List.not_mem_nil⟩
  | take underway queue _ => exact underway.faithful.expectant queue
  | tell _ ih => exact ih.tell

theorem counters (underway : Underway graph rounds release untold) (key : String) :
    release.blockers[key]? = (graph.find? key).map fun node =>
      (graph.awaited node release.released).card + untold.count key := by
  have expectant := underway.expectant
  -- the counters are known for the end of the round, when the rest is told
  have later := underway.faithful.blockers key
  simp only [getElem?_blockers_foldl_unblock expectant.once, released_foldl_unblock,
    Graph.countP_prerequisites] at later
  by_cases member : key ∈ untold
  · obtain ⟨left, count⟩ := expectant.waiting key member
    rw [if_pos member, count] at later
    obtain ⟨node, found, awaited⟩ := Option.map_eq_some_iff.1 later.symm
    rw [count, found, expectant.once.count, if_pos member, Option.map_some, awaited]
    rfl
  · rw [if_neg member] at later
    rw [later, List.count_eq_zero_of_not_mem member]
    rfl

theorem nodup_entered (underway : Underway graph rounds release untold) : release.entered.Nodup :=
  underway.faithful.once.sublist (entered_prefix_foldl untold release).sublist

theorem length_released (underway : Underway graph rounds release untold) :
    release.released.length = rounds := by
  induction underway with
  | start => rfl
  | take _ _ ih => rw [List.length_append, ih, List.length_singleton]
  | tell _ ih => rwa [released_unblock]

theorem rounds_le_size (underway : Underway graph rounds release untold) : rounds ≤ graph.size := by
  have bound := underway.faithful.length_le
  rw [released_foldl_unblock, List.length_append, underway.length_released] at bound
  omega

theorem tell_all (underway : Underway graph rounds release untold) :
    Underway graph rounds (untold.foldl unblock release) [] := by
  induction untold generalizing release with
  | nil => exact underway
  | cons next rest ih => exact ih underway.tell

end Underway

theorem exists_underway_run (graph : Graph) (bound : Nat) :
    ∃ rounds, Underway graph rounds (run graph bound (start graph)) [] := by
  induction bound with
  | zero => exact ⟨0, .start⟩
  | succ bound ih =>
    obtain ⟨rounds, underway⟩ := ih
    rw [run_succ]
    cases queue : (run graph bound (start graph)).ready with
    | nil => exact ⟨rounds, by rwa [step, queue]⟩
    | cons key waiting => exact ⟨rounds + 1, step_eq_foldl queue ▸ (underway.take queue).tell_all⟩

theorem run_add (graph : Graph) (first second : Nat) (release : Release) :
    run graph (first + second) release = run graph second (run graph first release) := by
  induction first generalizing release with
  | zero => rw [Nat.zero_add]; rfl
  | succ first ih => rw [Nat.succ_add]; exact ih (step graph release)

theorem run_of_ready_eq_nil (idle : release.ready = []) (rounds : Nat) : run graph rounds release = release := by
  induction rounds with
  | zero => rfl
  | succ rounds ih => rw [run_succ, ih, step, idle]

/-- Where no node is ready after a round, the release is over. -/
theorem Underway.eq_release (underway : Underway graph rounds release []) (idle : release.ready = []) :
    release = graph.release := by
  obtain ⟨more, total⟩ := Nat.exists_eq_add_of_le underway.rounds_le_size
  calc release = run graph more release := (run_of_ready_eq_nil idle more).symm
    _ = run graph more (run graph rounds (Release.start graph)) :=
      congrArg (run graph more) underway.foldl_eq_run
    _ = graph.release := by rw [← run_add, ← total, Graph.release]

/-- What a release of the graph keeps to from the first round to the last. Its counters and successors are
those that one pass over the nodes enters; a counter is never decremented at zero and is at any moment the
number of nodes still awaited, with those released but not yet told; every run of rounds ends in the same
place. -/
structure CountsDown (graph : Graph) : Prop where
  blockers : ∀ key : String, (Waits.ofGraph graph).blockers[key]? = (start graph).blockers[key]?
  dependents : ∀ key : String, graph.contains key = true →
    (Waits.ofGraph graph).dependents.getD key [] = graph.nodes.dependents key
  positive : ∀ {rounds release next untold}, Underway graph rounds release (next :: untold) →
    ∃ left, release.blockers[next]? = some (left + 1) ∧ (release.unblock next).blockers[next]? = some left
  counters : ∀ {rounds release untold}, Underway graph rounds release untold → ∀ key : String,
    release.blockers[key]? = (graph.find? key).map fun node =>
      (graph.awaited node release.released).card + untold.count key
  once : ∀ {rounds release untold}, Underway graph rounds release untold → release.entered.Nodup
  bounded : ∀ {rounds release untold}, Underway graph rounds release untold →
    release.released.length = rounds ∧ rounds ≤ graph.size
  follows : ∀ {rounds release}, Underway graph rounds release [] → release = run graph rounds (start graph)
  ends : ∃ rounds, Underway graph rounds graph.release [] ∧ graph.release.ready = []
  stops : ∀ {rounds release}, Underway graph rounds release [] → release.ready = [] → release = graph.release

/-- In every graph, whatever its nodes depend on and wherever they are stored, a release finds each counter
that it decrements at one or more, makes no node ready twice, and is over after at most one round for each
node; at every moment the counters are the numbers of distinct nodes of the graph still awaited. -/
theorem counts_down (graph : Graph) : CountsDown graph where
  blockers := Waits.getElem?_blockers_ofGraph graph
  dependents _ := Waits.getD_dependents_ofGraph
  positive {_ release next _} underway := by
    obtain ⟨left, count⟩ := underway.expectant.waiting next List.mem_cons_self
    refine ⟨left, count, ?_⟩
    rw [getElem?_blockers_unblock, if_pos rfl, count]
    rfl
  counters := Underway.counters
  once := Underway.nodup_entered
  bounded underway := ⟨underway.length_released, underway.rounds_le_size⟩
  follows underway := underway.foldl_eq_run
  ends := by
    obtain ⟨rounds, underway⟩ := exists_underway_run graph graph.size
    exact ⟨rounds, underway, graph.ready_release⟩
  stops := Underway.eq_release

/-- The counters from round to round: a repeated dependency counts once and a stranger not at all, nodes wait
for keys, and what waits for itself is never ready. -/
example :
    let nodes : List (String × Node) := [("a", { id := "z", deps := ["b", "x", "b"] }), ("b", { id := "b" }),
      ("c", { id := "c", deps := ["c", "a"] })]
    let graph : Graph := { nodes := .ofList nodes }
    (List.range 4).map (fun rounds => (run graph rounds (start graph)).blockers.toList.map Prod.snd) =
      [[1, 0, 2], [0, 0, 2], [0, 0, 1], [0, 0, 1]] := by
  decide +kernel

end Release

end Orchestration
