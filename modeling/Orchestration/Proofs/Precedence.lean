import Orchestration.Proofs.Categories
import Orchestration.Proofs.Paths

/-! Dependencies and the order of stages. Where a review warns of no order, the steps of a chain depend
on those right before them, and batches on earlier ones. As nothing depends on itself, a node then runs
before all of its chain or region that depend on it. -/

set_option autoImplicit false

namespace Orchestration.Partition

open Relation

variable {settings : Settings} {graph : Graph} {partition : Partition}

/-- Two nodes are listed in one chain or in one region. -/
def Together (partition : Partition) (first second : String) : Prop :=
  (∃ chain ∈ partition.chains, first ∈ chain.path ∧ second ∈ chain.path) ∨
    ∃ region ∈ partition.regions, first ∈ region.batches.flatten ∧ second ∈ region.batches.flatten

theorem chainOrderIssues_eq_nil (silent : (partition.review settings graph).count .chainOrder = 0)
    {chain : Chain} (member : chain ∈ partition.chains) : chainOrderIssues graph chain = [] := by
  exact List.flatMap_eq_nil_iff.1 ((count_review_eq_zero_iff (by decide)).1 silent) chain member

theorem batchOrderIssues_eq_nil (silent : (partition.review settings graph).count .batchOrder = 0)
    {region : Region} (member : region ∈ partition.regions) : batchOrderIssues graph region = [] := by
  exact List.flatMap_eq_nil_iff.1 ((count_review_eq_zero_iff (by decide)).1 silent) region member

theorem mem_zip_tail {keys before after : List String} {first second : String}
    (split : keys = before ++ first :: second :: after) : (first, second) ∈ keys.zip keys.tail := by
  subst split
  induction before with
  | nil => simp
  | cons key before ih =>
    cases before with
    | nil => simp
    | cons next before => exact List.mem_cons_of_mem _ ih

theorem rel_or_rel_of_pairwise {keys : List String} {relation : String → String → Prop}
    (ordered : keys.Pairwise relation) {first second : String} (one : first ∈ keys) (other : second ∈ keys)
    (apart : first ≠ second) : relation first second ∨ relation second first := by
  have : Std.Symm fun first second => relation first second ∨ relation second first :=
    ⟨fun _ _ => Or.symm⟩
  have either : keys.Pairwise fun first second => relation first second ∨ relation second first :=
    ordered.imp Or.inl
  exact either.forall one other apart

/-- Each step of a chain without warnings depends on the step before it. -/
theorem dependsOn_chain (selfKeyed : graph.SelfKeyed) {chain : Chain}
    (known : ∀ key ∈ chain.path, graph.contains key = true) (silent : chainOrderIssues graph chain = []) :
    chain.path.IsChain fun first second => graph.DependsOn second first := by
  apply List.isChain_iff_forall_rel_of_append_cons_cons.2
  intro first second before after path
  have knownFirst := known first (by simp [path])
  have foundFirst := graph.find?_eq_some_nodeAt knownFirst
  have foundSecond := graph.find?_eq_some_nodeAt (known second (by simp [path]))
  refine ⟨_, foundSecond, ?_, knownFirst⟩
  by_contra free
  rw [← selfKeyed.id_nodeAt first] at free
  have quiet : chainOrderIssue? graph chain first second = none :=
    List.filterMap_eq_nil_iff.1 silent _ (mem_zip_tail path)
  exact Option.ne_none_iff_exists'.2 ⟨_, chainOrderIssue?_eq_some_iff.2
    ⟨_, _, foundFirst, foundSecond, free, rfl⟩⟩ quiet

/-- What a node of a batch depends on is first listed in an earlier batch, if the region lists it. -/
theorem batchOf?_lt {region : Region} {batch : List String} {number other : Nat} {user dependency : String}
    {node : Node} (silent : batchOrderIssues graph region = []) (place : (batch, number) ∈ region.numbered)
    (inBatch : user ∈ batch) (found : graph.find? user = some node) (depends : dependency ∈ node.deps)
    (first : region.batchOf? dependency = some other) : other < number := by
  by_contra late
  have inRegion := List.flatMap_eq_nil_iff.1 silent _ place
  have ofUser := List.flatMap_eq_nil_iff.1 inRegion user inBatch
  simp only [found, List.filterMap_eq_nil_iff] at ofUser
  exact Option.ne_none_iff_exists'.2 ⟨_, batchOrderIssue?_eq_some_iff.2
    ⟨other, first, Nat.le_of_not_lt late, rfl⟩⟩ (ofUser dependency depends)

theorem exists_batchOf? {region : Region} {key : String} (listed : key ∈ region.batches.flatten) :
    ∃ batch number, (batch, number) ∈ region.numbered ∧ key ∈ batch ∧ region.batchOf? key = some number := by
  obtain ⟨batch, member, inBatch⟩ := List.mem_flatten.1 listed
  obtain ⟨index, found⟩ := List.mem_iff_getElem?.1 member
  have place : (batch, index + 1) ∈ region.numbered := mem_numbered.2 ⟨by omega, found⟩
  rw [region.batchOf?_eq_find? key]
  cases first : (region.numbered.find? fun entry => key ∈ entry.1).map Prod.snd with
  | none =>
    have missing := List.find?_eq_none.1 (Option.map_eq_none_iff.1 first) _ place
    exact absurd inBatch (by simpa using missing)
  | some number =>
    obtain ⟨numbered, found, rfl⟩ := Option.map_eq_some_iff.1 first
    have lists := List.find?_some found
    exact ⟨numbered.1, numbered.2, List.mem_of_find?_eq_some found, by simpa using lists, rfl⟩

section

variable (consistent : Consistent settings graph partition)
include consistent

/-- Within a chain, what comes first is a dependency of what comes later, directly or through others. -/
theorem Consistent.dependsOn_later {chain : Chain} (member : chain ∈ partition.chains)
    (silent : (partition.review settings graph).count .chainOrder = 0) :
    chain.path.Pairwise fun first second => TransGen graph.DependsOn second first := by
  have known : ∀ key ∈ chain.path, graph.contains key = true := fun key step =>
    consistent.known key (mem_listed.2 (.inl ⟨chain, member, step⟩))
  have steps := dependsOn_chain consistent.selfKeyed known (chainOrderIssues_eq_nil silent member)
  exact (steps.imp fun _ _ => TransGen.single).pairwise

theorem Consistent.reaches_in_chain {chain : Chain} (member : chain ∈ partition.chains)
    (silent : (partition.review settings graph).count .chainOrder = 0) {dependency user : String}
    (first : dependency ∈ chain.path) (second : user ∈ chain.path) (depends : graph.DependsOn user dependency) :
    TransGen (partition.machine graph).GoesOn (StateId.task dependency).text (StateId.task user).text := by
  have apart : dependency ≠ user := by
    rintro rfl
    exact consistent.acyclic _ (.single depends)
  have ordered := (reaches_chain consistent.selfKeyed member).and (consistent.dependsOn_later member silent)
  rcases rel_or_rel_of_pairwise ordered first second apart with ⟨path, _⟩ | ⟨_, turned⟩
  · exact path
  · -- were the user listed first, the dependency would depend on it in turn
    exact absurd (turned.tail depends) (consistent.acyclic _)

theorem Consistent.reaches_in_region {region : Region} (member : region ∈ partition.regions)
    (silent : (partition.review settings graph).count .batchOrder = 0) {dependency user : String}
    (first : dependency ∈ region.batches.flatten) (second : user ∈ region.batches.flatten)
    (depends : graph.DependsOn user dependency) :
    TransGen (partition.machine graph).GoesOn (StateId.task dependency).text (StateId.task user).text := by
  obtain ⟨node, found, lists, _⟩ := depends
  obtain ⟨batch, number, place, inBatch, firstBatch⟩ := exists_batchOf? first
  obtain ⟨later, other, placed, inLater, _⟩ := exists_batchOf? second
  have before : number < other :=
    batchOf?_lt (batchOrderIssues_eq_nil silent member) placed inLater found lists firstBatch
  have selfKeyed := consistent.selfKeyed
  have toStart := reaches_later selfKeyed member place placed before
  exact (toStart.head (goesOn_join selfKeyed member place inBatch)).tail (goesOn_branch member placed inLater)

end

/-- A partition in which a review finds no error and no order to warn of is compiled so that each node
is reached from all nodes of its chain or region that it depends on, and from it leads no way back. -/
theorem dependency_runs_first (settings : Settings) (graph : Graph) (partition : Partition)
    (accepted : (partition.review settings graph).hasErrors = false)
    (chains : (partition.review settings graph).count .chainOrder = 0)
    (batches : (partition.review settings graph).count .batchOrder = 0) :
    ∃ machine, partition.compile settings graph = .ok machine ∧
      ∀ dependency user node, partition.Together dependency user → graph.find? user = some node →
        dependency ∈ node.deps →
          TransGen machine.GoesOn (StateId.task dependency).text (StateId.task user).text ∧
            ¬ ReflTransGen machine.GoesOn (StateId.task user).text (StateId.task dependency).text := by
  have consistent : Consistent settings graph partition :=
    harmless_issues_iff.1 (Report.hasErrors_ofIssues_eq_false_iff.1 accepted)
  refine ⟨partition.machine graph, consistent.compile, ?_⟩
  intro dependency user node together found lists
  have depends : graph.DependsOn user dependency :=
    ⟨node, found, lists, consistent.closed.dependencies user node found dependency lists⟩
  have path : TransGen (partition.machine graph).GoesOn (StateId.task dependency).text
      (StateId.task user).text := by
    rcases together with ⟨chain, member, first, second⟩ | ⟨region, member, first, second⟩
    · exact consistent.reaches_in_chain member chains first second depends
    · exact consistent.reaches_in_region member batches first second depends
  have distinct := nodup_ids_machine consistent.selfKeyed consistent.nodup_names
  exact ⟨path, not_reflTransGen_of_transGen consistent.selfKeyed distinct path⟩

def relayGraph : Graph where
  nodes := .ofList <| [{ id := "a" }, { id := "b", deps := ["a"] }, { id := "c", deps := ["b", "a"] },
    { id := "x" }, { id := "y", deps := ["x"] }].map fun node : Node => (node.id, node)

def relay : Partition where
  chains := [{ id := "row", path := ["a", "b", "c"] }]
  regions := [{ id := "rest", batches := [["x"], [], ["y"]] }]

theorem dependency_runs_first_relay :
    (relay.review {} relayGraph).hasErrors = false ∧ (relay.review {} relayGraph).count .chainOrder = 0 ∧
      (relay.review {} relayGraph).count .batchOrder = 0 ∧
      ∃ machine, relay.compile {} relayGraph = .ok machine ∧
        (TransGen machine.GoesOn "exec_a" "exec_c" ∧ ¬ ReflTransGen machine.GoesOn "exec_c" "exec_a") ∧
        (TransGen machine.GoesOn "exec_x" "exec_y" ∧ ¬ ReflTransGen machine.GoesOn "exec_y" "exec_x") := by
  have accepted : (relay.review {} relayGraph).hasErrors = false := by decide +kernel
  have chains : (relay.review {} relayGraph).count .chainOrder = 0 := by decide +kernel
  have batches : (relay.review {} relayGraph).count .batchOrder = 0 := by decide +kernel
  obtain ⟨machine, compiled, runs⟩ := dependency_runs_first {} relayGraph relay accepted chains batches
  have row := runs "a" "c" { id := "c", deps := ["b", "a"] }
    (.inl ⟨_, List.mem_cons_self, by decide, by decide⟩) (by decide +kernel) (by decide)
  have rest := runs "x" "y" { id := "y", deps := ["x"] }
    (.inr ⟨_, List.mem_cons_self, by decide, by decide⟩) (by decide +kernel) (by decide)
  exact ⟨accepted, chains, batches, machine, compiled, row, rest⟩

end Orchestration.Partition
