import Mathlib.Data.List.Chain
import Orchestration.Proofs.Compilation
import Orchestration.Proofs.TokenFlow

/-! Paths on which nothing fails. In the machine of a partition they lead along every chain, and from
each batch of a region to all later ones; they never lead back in the list of states. -/

set_option autoImplicit false

namespace Orchestration

open Relation

/-- An edge that is taken on success leads from one state to the other. -/
def Machine.GoesOn (machine : Machine) (source target : String) : Prop :=
  ∃ stage ∈ machine.stages, stage.id = source ∧ target ∈ stage.continueTargets

instance (machine : Machine) : DecidableRel machine.GoesOn := fun source target =>
  inferInstanceAs (Decidable (∃ stage ∈ machine.stages, stage.id = source ∧ target ∈ stage.continueTargets))

namespace Partition

variable {graph : Graph} {partition : Partition}

section

variable (selfKeyed : graph.SelfKeyed)
include selfKeyed

theorem idxOf_lt_of_goesOn (distinct : (partition.machine graph).ids.Nodup) {source target : String}
    (goes : (partition.machine graph).GoesOn source target) :
    (partition.machine graph).ids.idxOf source < (partition.machine graph).ids.idxOf target := by
  obtain ⟨stage, member, rfl, leaves⟩ := goes
  exact Machine.idxOf_lt_of_sublist distinct (forward_machine selfKeyed member leaves)

theorem idxOf_lt_of_transGen (distinct : (partition.machine graph).ids.Nodup) {source target : String}
    (path : TransGen (partition.machine graph).GoesOn source target) :
    (partition.machine graph).ids.idxOf source < (partition.machine graph).ids.idxOf target := by
  induction path with
  | single goes => exact idxOf_lt_of_goesOn selfKeyed distinct goes
  | tail _ goes ih => exact ih.trans (idxOf_lt_of_goesOn selfKeyed distinct goes)

/-- No path leads back. -/
theorem not_reflTransGen_of_transGen (distinct : (partition.machine graph).ids.Nodup) {source target : String}
    (path : TransGen (partition.machine graph).GoesOn source target) :
    ¬ ReflTransGen (partition.machine graph).GoesOn target source := by
  intro back
  have cycle := path.trans_left back
  exact Nat.lt_irrefl _ (idxOf_lt_of_transGen selfKeyed distinct cycle)

theorem goesOn_chain {chain : Chain} (member : chain ∈ partition.chains) :
    chain.path.IsChain fun first second =>
      (partition.machine graph).GoesOn (StateId.task first).text (StateId.task second).text := by
  apply List.isChain_iff_forall_rel_of_append_cons_cons.2
  intro first second before after path
  have step : partition.Emits graph ((graph.nodeAt first).stage (following (second :: after))) :=
    .step member path
  exact ⟨_, mem_stages_machine.2 step, selfKeyed.id_stage first _, List.mem_singleton_self _⟩

/-- A step of a chain reaches every later one. -/
theorem reaches_chain {chain : Chain} (member : chain ∈ partition.chains) :
    chain.path.Pairwise fun first second =>
      TransGen (partition.machine graph).GoesOn (StateId.task first).text (StateId.task second).text := by
  have steps := (List.isChain_map fun key => (StateId.task key).text).2 (goesOn_chain selfKeyed member)
  exact List.pairwise_map.1 (steps.imp fun _ _ => TransGen.single).pairwise

variable {region : Region} (member : region ∈ partition.regions) {batch later : List String} {number other : Nat}
  (place : (batch, number) ∈ region.numbered)
include member place

omit selfKeyed in
theorem goesOn_branch {key : String} (inBatch : key ∈ batch) :
    (partition.machine graph).GoesOn (StateId.batchStart region.id number).text (StateId.task key).text := by
  have start : partition.Emits graph (region.start batch number) := .start member place
  refine ⟨_, mem_stages_machine.2 start, rfl, ?_⟩
  rw [Region.continueTargets_start, if_neg (List.ne_nil_of_mem inBatch)]
  exact List.mem_map_of_mem (List.mem_map_of_mem inBatch)

theorem goesOn_join {key : String} (inBatch : key ∈ batch) :
    (partition.machine graph).GoesOn (StateId.task key).text (StateId.batchJoin region.id number).text := by
  have branch : partition.Emits graph ((graph.nodeAt key).stage (StateId.batchJoin region.id number).text) :=
    .branch member place inBatch
  exact ⟨_, mem_stages_machine.2 branch, selfKeyed.id_stage key _, List.mem_singleton_self _⟩

/-- A start reaches its join, through a branch or without one. -/
theorem reaches_join :
    TransGen (partition.machine graph).GoesOn (StateId.batchStart region.id number).text
      (StateId.batchJoin region.id number).text := by
  cases batch with
  | nil =>
    have start : partition.Emits graph (region.start [] number) := .start member place
    exact .single ⟨_, mem_stages_machine.2 start, rfl, List.mem_singleton_self _⟩
  | cons key rest =>
    have first : key ∈ key :: rest := List.mem_cons_self
    exact .head (goesOn_branch member place first) (.single (goesOn_join selfKeyed member place first))

omit selfKeyed in
theorem goesOn_next (follows : (later, number + 1) ∈ region.numbered) :
    (partition.machine graph).GoesOn (StateId.batchJoin region.id number).text
      (StateId.batchStart region.id (number + 1)).text := by
  have join : partition.Emits graph (region.join number) := .join member place
  have more : number ≠ region.batches.length := by
    obtain ⟨inside, _⟩ := List.getElem?_eq_some_iff.1 (mem_numbered.1 follows).2
    omega
  refine ⟨_, mem_stages_machine.2 join, rfl, ?_⟩
  rw [Region.continueTargets_join, Region.follower, if_neg more]
  exact List.mem_singleton_self _

/-- The join of a batch reaches the starts of all later batches. -/
theorem reaches_later (follows : (later, other) ∈ region.numbered) (before : number < other) :
    TransGen (partition.machine graph).GoesOn (StateId.batchJoin region.id number).text
      (StateId.batchStart region.id other).text := by
  induction before generalizing later with
  | refl => exact .single (goesOn_next member place follows)
  | @step middle less ih =>
    -- the batch in between is reached by induction, and its join leads on
    have above : number + 1 ≤ middle := less
    obtain ⟨inside, _⟩ := List.getElem?_eq_some_iff.1 (mem_numbered.1 follows).2
    have between : (region.batches[middle - 1], middle) ∈ region.numbered :=
      mem_numbered.2 ⟨by omega, List.getElem?_eq_getElem _⟩
    have toJoin := (ih between).trans (reaches_join selfKeyed member between)
    exact toJoin.tail (goesOn_next member between follows)

end

end Partition

end Orchestration
