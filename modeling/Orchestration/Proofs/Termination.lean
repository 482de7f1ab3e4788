import Orchestration.Proofs.Execution
import Orchestration.Proofs.Paths

/-! Compiled machines come to an end. Their edges lead to later states only, so that no walk visits a
state twice, and every stage has an edge to go on by, so that each choice of edges leads to success. -/

set_option autoImplicit false

namespace Orchestration

open Relation

namespace Machine

/-- Whichever edges are chosen, success comes after so many steps at most. -/
inductive SucceedsWithin (machine : Machine) : Nat → String → Prop where
  | done (steps : Nat) : SucceedsWithin machine steps Ending.success.id
  | onward {steps : Nat} {id : String} (progress : ∃ next, machine.GoesOn id next)
      (choice : ∀ next, machine.GoesOn id next → SucceedsWithin machine steps next) :
      SucceedsWithin machine (steps + 1) id

theorem SucceedsWithin.reaches {machine : Machine} {steps : Nat} {id : String}
    (succeeds : machine.SucceedsWithin steps id) : ReflTransGen machine.GoesOn id Ending.success.id := by
  induction succeeds with
  | done => exact .refl
  | onward progress _ ih =>
    obtain ⟨next, goes⟩ := progress
    exact .head goes (ih next goes)

/-- Under distinct ids the place of an id is that of its state. -/
theorem idxOf_id {machine : Machine} (distinct : machine.ids.Nodup) {index : Nat} {state : State}
    (found : machine.states[index]? = some state) : machine.ids.idxOf state.id = index := by
  have named : machine.ids[index]? = some state.id := by
    rw [ids, List.getElem?_map, found, Option.map_some]
  obtain ⟨inside, same⟩ := List.getElem?_eq_some_iff.1 named
  rw [← same, distinct.idxOf_getElem]

/-- Transitions lead forward in the list of states, so that every walk is over soon. -/
structure Descends (machine : Machine) : Prop where
  endings : ∀ ending : Ending, .final ending.id ∈ machine.states
  ahead : ∀ (index : Nat) stage, machine.states[index]? = some (.stage stage) →
    ∀ edge ∈ stage.transitions, machine.ids.count edge.target = 1 ∧
      ∃ later, index < later ∧ machine.ids[later]? = some edge.target
  inside : ∀ stage ∈ machine.stages, Ending.failure.id ∉ stage.continueTargets
  succeeds : ∀ stage ∈ machine.stages,
    ∃ steps < machine.states.length, machine.SucceedsWithin steps stage.id
  simple : ∀ walk : List String, walk.IsChain machine.GoesOn → walk.Nodup
  fails : ∀ stage ∈ machine.stages, stage.failures.map Transition.target = [Ending.failure.id]

end Machine

namespace Partition

variable {settings : Settings} {graph : Graph} {partition : Partition} {stage : Stage}

section

variable (selfKeyed : graph.SelfKeyed)
include selfKeyed

/-- A walk goes forward with every step, so it never returns. -/
theorem nodup_walk (distinct : (partition.machine graph).ids.Nodup) {walk : List String}
    (steps : walk.IsChain (partition.machine graph).GoesOn) : walk.Nodup := by
  have reaches := (steps.imp fun _ _ => TransGen.single).pairwise
  refine reaches.imp fun path same => ?_
  subst same
  exact Nat.lt_irrefl _ (idxOf_lt_of_transGen selfKeyed distinct path)

theorem mem_ids_of_goesOn {source target : String} (goes : (partition.machine graph).GoesOn source target) :
    target ∈ (partition.machine graph).ids := by
  obtain ⟨stage, member, rfl, leaves⟩ := goes
  exact (forward_machine selfKeyed member leaves).subset (List.mem_cons_of_mem _ List.mem_cons_self)

theorem goesOn_success_or_stage {source target : String}
    (goes : (partition.machine graph).GoesOn source target) :
    target = Ending.success.id ∨ ∃ stage ∈ (partition.machine graph).stages, stage.id = target := by
  obtain ⟨state, stored, rfl⟩ := List.mem_map.1 (mem_ids_of_goesOn selfKeyed goes)
  cases state with
  | stage next => exact .inr ⟨next, Machine.mem_stages.2 stored, rfl⟩
  | final id =>
    obtain ⟨ending, rfl⟩ := ending_of_mem_machine stored
    cases ending with
    | success => exact .inl rfl
    | failure =>
      obtain ⟨stage, member, -, leaves⟩ := goes
      exact absurd leaves (not_mem_continueTargets_failure member)

end

namespace Consistent

variable (consistent : Consistent settings graph partition)
include consistent

theorem progress (member : stage ∈ (partition.machine graph).stages) :
    ∃ next, (partition.machine graph).GoesOn stage.id next := by
  obtain ⟨next, leaves⟩ := List.exists_mem_of_ne_nil _ (consistent.sound.continueTargets_ne_nil member)
  exact ⟨next, stage, member, rfl, leaves⟩

/-- A stage needs no more steps than there are states behind it. -/
theorem succeedsWithin {steps : Nat} (member : stage ∈ (partition.machine graph).stages)
    (room : (partition.machine graph).ids.length ≤ (partition.machine graph).ids.idxOf stage.id + steps + 1) :
    (partition.machine graph).SucceedsWithin steps stage.id := by
  have selfKeyed := consistent.selfKeyed
  have distinct := consistent.sound.distinct
  induction steps generalizing stage with
  | zero =>
    -- the last state is no stage, as it would have to go on to a later one
    obtain ⟨next, goes⟩ := consistent.progress member
    have behind := idxOf_lt_of_goesOn selfKeyed distinct goes
    have inside := List.idxOf_lt_length_of_mem (mem_ids_of_goesOn selfKeyed goes)
    omega
  | succ steps ih =>
    refine .onward (consistent.progress member) fun next goes => ?_
    have behind := idxOf_lt_of_goesOn selfKeyed distinct goes
    rcases goesOn_success_or_stage selfKeyed goes with rfl | ⟨stage, stored, rfl⟩
    · exact .done steps
    · exact ih stored (by omega)

theorem descends : (partition.machine graph).Descends := by
  have sound := consistent.sound
  constructor
  case endings => exact fun ending => List.count_pos_iff.1 (by rw [sound.endings ending]; exact Nat.one_pos)
  case ahead =>
    intro index stage found edge leaves
    have member := Machine.mem_stages.2 (List.mem_of_getElem? found)
    have pair := forward_machine_of_edge consistent.selfKeyed member leaves
    have known := pair.subset (List.mem_cons_of_mem _ List.mem_cons_self)
    have place : (partition.machine graph).ids.idxOf stage.id = index :=
      Machine.idxOf_id sound.distinct found
    refine ⟨List.count_eq_one_of_mem sound.distinct known, _, ?_, List.getElem?_idxOf known⟩
    rw [← place]
    exact Machine.idxOf_lt_of_sublist sound.distinct pair
  case inside => exact fun stage member => not_mem_continueTargets_failure member
  case succeeds =>
    intro stage member
    have some := List.length_pos_of_mem (Machine.mem_stages.1 member)
    refine ⟨(partition.machine graph).states.length - 1, by omega, consistent.succeedsWithin member ?_⟩
    rw [Machine.ids, List.length_map]
    omega
  case simple => exact fun walk steps => nodup_walk consistent.selfKeyed sound.distinct steps
  case fails => exact fun stage member => by rw [failures_machine member]; rfl

end Consistent

/-- Compiled machines have no loops and no dead ends. Every transition leads to one later state; whoever
follows edges taken on success, however they are chosen, succeeds in fewer steps than there are states
and passes none of them twice; an error fails at once. -/
theorem descends_of_compile {machine : Machine} (reviewing : settings.reviewPartition = true)
    (compiled : partition.compile settings graph = .ok machine) : machine.Descends := by
  obtain ⟨consistent, rfl⟩ := consistent_of_compile reviewing compiled
  exact consistent.descends

def wayThrough : List String :=
  ([.batchStart "body" 1, .task "b", .batchJoin "body" 1, .batchStart "body" 2, .task "d", .batchJoin "body" 2,
    .final .success] : List StateId).map StateId.text

theorem descends_diamond :
    ({} : Settings).reviewPartition = true ∧ ∃ machine, diamond.compile {} diamondGraph = .ok machine ∧
      machine.Descends ∧
      (∃ (index later : Nat) (stage : Stage), machine.states[index]? = some (.stage stage) ∧
        branchTo (StateId.task "b").text ∈ stage.transitions ∧ index < later ∧
          machine.ids[later]? = some (StateId.task "b").text) ∧
      (wayThrough.IsChain machine.GoesOn ∧ wayThrough.Nodup) ∧
      ∃ steps < machine.states.length, machine.SucceedsWithin steps (StateId.batchStart "body" 1).text := by
  have compiled := consistent_diamond.compile
  have descends := descends_of_compile rfl compiled
  obtain ⟨stage, stored, named, branches⟩ : ∃ stage,
      (diamond.machine diamondGraph).states[1]? = some (.stage stage) ∧
      stage.id = (StateId.batchStart "body" 1).text ∧ branchTo (StateId.task "b").text ∈ stage.transitions :=
    ⟨_, rfl, rfl, by decide +kernel⟩
  have walk : wayThrough.IsChain (diamond.machine diamondGraph).GoesOn := by decide +kernel
  refine ⟨rfl, _, compiled, descends, ?transition, ⟨walk, descends.simple _ walk⟩, ?success⟩
  case transition =>
    obtain ⟨later, ahead, there⟩ := (descends.ahead 1 stage stored _ branches).2
    exact ⟨1, later, stage, stored, branches, ahead, there⟩
  case success => exact named ▸ descends.succeeds stage (Machine.mem_stages.2 (List.mem_of_getElem? stored))

end Partition

end Orchestration
