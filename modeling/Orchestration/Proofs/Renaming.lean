import Mathlib.Logic.Equiv.Basic
import Orchestration.Proofs.Compilation
import Orchestration.Proofs.Correspondence
import Orchestration.Proofs.Verdicts

/-! New names for the nodes of a graph and a partition. New names bring a new order: graphs are read in the order
of keys, and so are the queue of released nodes and the ids that findings are about. As long as different nodes
keep different names, all of this comes out as before under the new names. -/

set_option autoImplicit false

namespace Orchestration

theorem perm_toList_ofList {α : Type} {entries : List (String × α)} (distinct : (entries.map Prod.fst).Nodup) :
    entries.Perm (Std.TreeMap.ofList entries).toList := by
  have apart : entries.Pairwise fun first second => ¬compare first.1 second.1 = .eq := by
    simpa only [Std.LawfulEqCmp.compare_eq_iff_eq, List.Nodup, List.pairwise_map] using distinct
  apply (List.perm_ext_iff_of_nodup distinct.of_map (nodup_map_fst_toList _).of_map).2
  intro entry
  obtain ⟨key, value⟩ := entry
  have stored : ∀ value, (key, value) ∈ entries → (Std.TreeMap.ofList entries)[key]? = some value :=
    fun _ => Std.TreeMap.getElem?_ofList_of_mem (by simp) apart
  rw [Std.TreeMap.mem_toList_iff_getElem?_eq_some]
  constructor
  · exact stored value
  · intro found
    have known : key ∈ Std.TreeMap.ofList entries := Std.TreeMap.mem_iff_isSome_getElem?.2 (by simp [found])
    obtain ⟨⟨_, other⟩, member, rfl⟩ := List.mem_map.1 (List.contains_iff_mem.1 (Std.TreeMap.mem_ofList.1 known))
    rwa [Option.some.inj (found.symm.trans (stored other member))]

namespace StateId

def rename (names : String → String) : StateId → StateId
  | task node => task (names node)
  | id => id

def taskOf? (text : String) : Option String :=
  (text.toList.dropPrefix? "exec_".toList).map String.ofList

/-- The text of a state id under new names; a text that is not the id of a task stays. -/
def renameText (names : String → String) (text : String) : String :=
  match taskOf? text with
  | some node => (task (names node)).text
  | none => text

theorem taskOf?_eq_some_iff {text node : String} : taskOf? text = some node ↔ text = (task node).text := by
  rw [taskOf?, Option.map_eq_some_iff, StateId.text, ← String.toList_inj, String.toList_append]
  simp only [List.dropPrefix?_eq_some_iff, beq_iff_eq]
  constructor
  · rintro ⟨rest, ⟨_, parts, rfl⟩, rfl⟩
    rw [String.toList_ofList]
    simpa using parts
  · intro parts
    exact ⟨node.toList, ⟨_, parts, rfl⟩, String.ofList_toList⟩

@[simp] theorem taskOf?_task (node : String) : taskOf? (task node).text = some node :=
  taskOf?_eq_some_iff.2 rfl

variable {names : String → String}

@[simp] theorem renameText_text (id : StateId) : renameText names id.text = (id.rename names).text := by
  have none (other : ∀ node, id ≠ task node) : taskOf? id.text = none := by
    rw [Option.eq_none_iff_forall_ne_some]
    exact fun node found => other node (text_injective (taskOf?_eq_some_iff.1 found))
  unfold renameText
  cases id with
  | task node => rw [taskOf?_task, rename]
  | _ => rw [none (by simp)]; rfl

theorem renameText_ending (ending : Ending) : renameText names ending.id = ending.id :=
  renameText_text (.final ending)

theorem taskOf?_renameText (text : String) : taskOf? (renameText names text) = (taskOf? text).map names := by
  unfold renameText
  cases found : taskOf? text with
  | some node => rw [taskOf?_task, Option.map_some]
  | none => rw [found, Option.map_none]

theorem renameText_injective (injective : Function.Injective names) : Function.Injective (renameText names) := by
  intro first second same
  have nodes : taskOf? first = taskOf? second := by
    apply Option.map_injective injective
    rw [← taskOf?_renameText, ← taskOf?_renameText, same]
  cases found : taskOf? second with
  | some node => rw [taskOf?_eq_some_iff.1 (nodes.trans found), taskOf?_eq_some_iff.1 found]
  | none => simpa [renameText, nodes, found] using same

end StateId

def renameEntries {α β : Type} (names : String → String) (change : α → β) (stored : Std.TreeMap String α) :
    Std.TreeMap String β :=
  .ofList (stored.toList.map fun entry => (names entry.1, change entry.2))

def Graph.rename (names : String → String) (graph : Graph) : Graph where
  nodes := renameEntries names (Node.rename names) graph.nodes
  forward := renameEntries names (List.map names) graph.forward
  reverse := renameEntries names (List.map names) graph.reverse
  sinks := graph.sinks.map names

def Region.rename (names : String → String) (region : Region) : Region :=
  { region with batches := region.batches.map (List.map names), joins := region.joins.map names }

def Partition.rename (names : String → String) (partition : Partition) : Partition where
  chains := partition.chains.map (Chain.rename names)
  regions := partition.regions.map (Region.rename names)

def Listing.rename (names : String → String) (listing : Listing) : Listing :=
  { listing with node := names listing.node }

def Stage.rename (names : String → String) (stage : Stage) : Stage :=
  { stage with
    id := StateId.renameText names stage.id
    transitions := stage.transitions.map (Transition.rename (StateId.renameText names))
    node := if stage.role = .task then names stage.node else stage.node }

def State.rename (names : String → String) : State → State
  | stage body => stage (body.rename names)
  | final name => final (StateId.renameText names name)

def Machine.rename (names : String → String) (machine : Machine) : Machine where
  states := machine.states.map (State.rename names)

def Slot.rename (names : String → String) : Slot → Slot
  | .error listing => .error (listing.rename names)
  | .ok state => .ok (state.rename names)

variable {names : String → String}

@[simp] theorem State.id_rename (state : State) :
    (state.rename names).id = StateId.renameText names state.id := by
  cases state <;> rfl

theorem Machine.matches_rename (names : String → String) (machine : Machine) :
    machine.Matches (StateId.renameText names) (machine.rename names) := by
  refine ⟨_, List.forall₂_map_right_iff.2 (List.forall₂_same.2 fun state _ => ?_), .rfl⟩
  cases state with
  | stage body => exact .stage ⟨rfl, rfl, .rfl⟩
  | final name => exact .final name

theorem Partition.matches_rename (names : String → String) (partition : Partition) :
    partition.Matches names (partition.rename names) := by
  constructor
  · exact Rearranged.of_map_perm .rfl
  · refine (Rearranged.of_map_perm .rfl).mono fun region renamed same => ?_
    subst same
    exact ⟨rfl, List.forall₂_map_right_iff.2 (List.forall₂_same.2 fun _ _ => .rfl), fun _ => .rfl⟩

section

variable (injective : Function.Injective names)
include injective

theorem perm_toList_renameEntries {α β : Type} (change : α → β) (stored : Std.TreeMap String α) :
    (stored.toList.map fun entry => (names entry.1, change entry.2)).Perm
      (renameEntries names change stored).toList := by
  apply perm_toList_ofList
  have keys : (stored.toList.map fun entry => (names entry.1, change entry.2)).map Prod.fst =
      stored.keys.map names := by
    rw [← Std.TreeMap.map_fst_toList_eq_keys, List.map_map, List.map_map]
    rfl
  rw [keys]
  exact Std.TreeMap.nodup_keys.map injective

theorem Graph.matches_rename (graph : Graph) : graph.Matches names (graph.rename names) := by
  refine ⟨perm_toList_renameEntries injective _ graph.nodes, fun direction => ?_, rfl⟩
  cases direction with
  | forward => exact perm_toList_renameEntries injective _ graph.forward
  | reverse => exact perm_toList_renameEntries injective _ graph.reverse

end

namespace Transition

@[simp] theorem rename_proceedTo (change : String → String) (target : String) :
    (proceedTo target).rename change = proceedTo (change target) := rfl

@[simp] theorem rename_branchTo (change : String → String) (target : String) :
    (branchTo target).rename change = branchTo (change target) := rfl

@[simp] theorem rename_failOver : failOver.rename (StateId.renameText names) = failOver := by
  rw [failOver, rename, StateId.renameText_ending]

end Transition

theorem Node.stage_rename (node : Node) (next : String) :
    (node.rename names).stage (StateId.renameText names next) = (node.stage next).rename names := by
  simp [stage, Stage.rename, rename, StateId.rename]

namespace Region

variable (region : Region)

theorem start_rename (batch : List String) (number : Nat) :
    (region.rename names).start (batch.map names) number = (region.start batch number).rename names := by
  by_cases empty : batch = [] <;> simp [start, Stage.rename, rename, empty, StateId.rename]

theorem join_rename (number : Nat) : (region.rename names).join number = (region.join number).rename names := by
  have follower : (region.rename names).follower number = StateId.renameText names (region.follower number) := by
    by_cases last : number = region.batches.length <;>
      simp [Region.follower, rename, last, StateId.rename, StateId.renameText_ending]
  have id : (region.rename names).id = region.id := rfl
  simp [join, Stage.rename, id, follower, StateId.rename]

theorem numbered_rename :
    (region.rename names).numbered = region.numbered.map fun entry => (entry.1.map names, entry.2) :=
  List.zipIdx_map

end Region

section

variable {error kind α β : Type} (reduce : error → kind) (result : Except error α)

theorem mapError_map (make : α → β) :
    (result.map make).mapError reduce = (result.mapError reduce).map make := by
  cases result <;> rfl

theorem ok_of_mapError {value : α} (found : result.mapError reduce = .ok value) : result = .ok value := by
  cases result <;> cases found
  rfl

theorem mapError_bind (next : α → Except error β) :
    (result.bind next).mapError reduce =
      (result.mapError reduce).bind fun value => (next value).mapError reduce := by
  cases result <;> rfl

end

section

variable {graph other : Graph} (graphs : graph.Matches names other) (injective : Function.Injective names)
include graphs injective

theorem Listing.slot_rename (listing : Listing) (next : String) :
    (listing.rename names).slot other (StateId.renameText names next) =
      Slot.rename names (listing.slot graph next) := by
  unfold slot
  rw [rename, graphs.find?_names injective]
  cases graph.find? listing.node with
  | none => rfl
  | some node => simp [Node.stage_rename, Slot.rename, State.rename]

theorem Chain.draft_rename (chain : Chain) :
    (chain.rename names).draft other = (chain.draft graph).map (Slot.rename names) := by
  have listings : (chain.rename names).listings = chain.listings.map (Listing.rename names) := by
    simp [listings, rename, Listing.rename]
  have followers : (chain.rename names).followers = chain.followers.map (StateId.renameText names) := by
    simp [followers, rename, StateId.rename, StateId.renameText_ending, Function.comp_def]
  rw [draft, draft, listings, followers, List.zipWith_map, List.map_zipWith]
  simp only [Listing.slot_rename graphs injective]

theorem Region.batchDraft_rename (region : Region) (batch : List String) (number : Nat) :
    (region.rename names).batchDraft other (batch.map names) number =
      (region.batchDraft graph batch number).map (Slot.rename names) := by
  have slots : ∀ key, (Listing.mk ⟨.region, region.id⟩ (names key)).slot other
      (StateId.batchJoin region.id number).text = Slot.rename names
        ((Listing.mk ⟨.region, region.id⟩ key).slot graph (StateId.batchJoin region.id number).text) := by
    intro key
    rw [← Listing.slot_rename graphs injective, StateId.renameText_text]
    rfl
  have id : (region.rename names).id = region.id := rfl
  simp [batchDraft, start_rename, join_rename, id, slots, Slot.rename, State.rename]

theorem Region.draft_rename (region : Region) :
    (region.rename names).draft other = (region.draft graph).map (Slot.rename names) := by
  simp only [draft, numbered_rename, List.flatMap_map, List.map_flatMap, batchDraft_rename graphs injective]

theorem Partition.draft_rename (partition : Partition) :
    (partition.rename names).draft other = (partition.draft graph).map (Slot.rename names) := by
  simp [draft, rename, List.flatMap_map, List.map_flatMap, Chain.draft_rename graphs injective,
    Region.draft_rename graphs injective, Slot.rename, State.rename, StateId.renameText_ending]

omit graphs

/-- A draft under new names settles or fails as before; of an error only the kind stays. -/
theorem settle_rename (seen : List String) (slots : List Slot) :
    (settle (seen.map (StateId.renameText names)) (slots.map (Slot.rename names))).mapError Fault.kind =
      ((settle seen slots).mapError Fault.kind).map (List.map (State.rename names)) := by
  induction slots generalizing seen with
  | nil => rfl
  | cons slot rest ih =>
    cases slot with
    | error listing => rfl
    | ok state =>
      have old : (state.rename names).id ∈ seen.map (StateId.renameText names) ↔ state.id ∈ seen := by
        rw [State.id_rename, List.mem_map_of_injective (StateId.renameText_injective injective)]
      simp only [List.map_cons, Slot.rename, settle, old]
      by_cases repeated : state.id ∈ seen
      · rw [if_pos repeated, if_pos repeated]
        rfl
      · have tail := ih (state.id :: seen)
        rw [List.map_cons, ← State.id_rename] at tail
        rw [if_neg repeated, if_neg repeated, mapError_map, mapError_map, tail]
        cases (settle (state.id :: seen) rest).mapError Fault.kind <;> rfl

include graphs

theorem Partition.emit_rename (partition : Partition) :
    ((partition.rename names).emit other).mapError Fault.kind =
      ((partition.emit graph).mapError Fault.kind).map (Machine.rename names) := by
  have settled := settle_rename injective [] (partition.draft graph)
  rw [List.map_nil, ← draft_rename graphs injective] at settled
  rw [emit, emit, mapError_map, mapError_map, settled]
  cases (settle [] (partition.draft graph)).mapError Fault.kind <;> rfl

omit graphs

theorem Machine.vet_rename (machine : Machine) :
    (machine.rename names).vet.mapError Fault.kind =
      (machine.vet.mapError Fault.kind).map (Machine.rename names) := by
  have verdict : (machine.rename names).audit.hasErrors = machine.audit.hasErrors :=
    (machine.matches_rename names).hasErrors_audit_eq (StateId.renameText_injective injective)
      StateId.renameText_ending
  simp only [Machine.vet, verdict]
  split <;> rfl

include graphs

theorem Partition.produce_rename (settings : Settings) (partition : Partition) :
    ((partition.rename names).produce settings other).mapError Fault.kind =
      ((partition.produce settings graph).mapError Fault.kind).map (Machine.rename names) := by
  have stepwise : ∀ (graph : Graph) (partition : Partition), partition.produce settings graph =
      (partition.emit graph).bind fun machine =>
        if settings.auditMachine then machine.vet else .ok machine := by
    intro graph partition
    rw [produce]
    cases partition.emit graph <;> rfl
  rw [stepwise, stepwise, mapError_bind, mapError_bind, partition.emit_rename graphs injective]
  cases (partition.emit graph).mapError Fault.kind with
  | error kind => rfl
  | ok machine =>
    cases settings.auditMachine with
    | false => rfl
    | true =>
      simp only [Except.map, Except.bind, if_true]
      exact machine.vet_rename injective

theorem Partition.compile_rename (settings : Settings) (partition : Partition) :
    ((partition.rename names).compile settings other).mapError Fault.kind =
      ((partition.compile settings graph).mapError Fault.kind).map (Machine.rename names) := by
  have reviews : (partition.review settings graph).hasErrors =
      ((partition.rename names).review settings other).hasErrors :=
    (sameCounts_review_of_matches graphs injective (partition.matches_rename names)).hasErrors_eq
  rw [compile, compile, reviews]
  split
  · rfl
  · exact partition.produce_rename graphs injective settings

end

/-- Under new names a review counts the same findings, and a partition compiles to the same machine under new
names, or fails with an error of the same kind. -/
theorem Partition.outcome_of_renamed (injective : Function.Injective names) (settings : Settings) (graph : Graph)
    (partition : Partition) :
    (partition.review settings graph).SameCounts ((partition.rename names).review settings (graph.rename names)) ∧
      ((partition.rename names).compile settings (graph.rename names)).mapError Fault.kind =
        ((partition.compile settings graph).mapError Fault.kind).map (Machine.rename names) :=
  have graphs := graph.matches_rename injective
  ⟨sameCounts_review_of_matches graphs injective (partition.matches_rename names),
    partition.compile_rename graphs injective settings⟩

def Partition.backwards : Partition where
  chains := [{ id := "tail", path := ["d", "a"] }]
  regions := [{ id := "body", batches := [["b", "c"]], joins := ["b"] }]

theorem Partition.outcome_of_swapped :
    let names := Equiv.swap "a" "d"
    let settings : Settings := { reviewPartition := false }
    Function.Injective names ∧
      ((backwards.review settings diamondGraph).count .chainOrder = 1 ∧
        (backwards.review settings diamondGraph).count .joinMismatch = 1) ∧
      (backwards.review settings diamondGraph).SameCounts
        ((backwards.rename names).review settings (diamondGraph.rename names)) ∧
      ∃ machine, backwards.compile settings diamondGraph = .ok machine ∧
        machine.ids = ["exec_d", "exec_a", "bu_body_batch_1_start", "exec_b", "exec_c", "bu_body_batch_1_join",
          "success", "failure"] ∧
        (backwards.rename names).compile settings (diamondGraph.rename names) = .ok (machine.rename names) ∧
        (machine.rename names).ids = ["exec_a", "exec_d", "bu_body_batch_1_start", "exec_b", "exec_c",
          "bu_body_batch_1_join", "success", "failure"] := by
  intro names settings
  obtain ⟨counts, outcome⟩ := outcome_of_renamed names.injective settings diamondGraph backwards
  obtain ⟨machine, compiled, spelt, respelt⟩ : ∃ machine, backwards.compile settings diamondGraph = .ok machine ∧
      machine.ids = ["exec_d", "exec_a", "bu_body_batch_1_start", "exec_b", "exec_c", "bu_body_batch_1_join",
        "success", "failure"] ∧
      (machine.rename names).ids = ["exec_a", "exec_d", "bu_body_batch_1_start", "exec_b", "exec_c",
        "bu_body_batch_1_join", "success", "failure"] := ⟨_, rfl, by decide +kernel⟩
  rw [compiled] at outcome
  exact ⟨names.injective, by decide +kernel, counts, machine, compiled, spelt, ok_of_mapError _ _ outcome, respelt⟩

end Orchestration
