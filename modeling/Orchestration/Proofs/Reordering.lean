import Orchestration.Proofs.Compilation
import Orchestration.Proofs.Correspondence
import Orchestration.Proofs.Verdicts

/-! The order in which a partition is written down. Findings are counted alike whatever the order of chains,
regions, nodes within a batch and joins; the order of chains and regions moves states and does nothing else. -/

set_option autoImplicit false

namespace Orchestration

structure Region.Rearranges (region other : Region) : Prop where
  id : other.id = region.id
  batches : List.Forall₂ List.Perm region.batches other.batches
  joins : ∀ node, node ∈ other.joins ↔ node ∈ region.joins

namespace Partition

structure Rearranges (partition other : Partition) : Prop where
  chains : partition.chains.Perm other.chains
  regions : Rearranged Region.Rearranges partition.regions other.regions

variable {graph : Graph} {settings : Settings} {partition other : Partition}

theorem Rearranges.matches (rearranged : partition.Rearranges other) : partition.Matches id other := by
  have chains : Chain.rename id = id := funext fun chain => by simp [Chain.rename]
  constructor
  · apply Rearranged.of_map_perm
    rw [chains, List.map_id]
    exact rearranged.chains
  · refine rearranged.regions.mono fun region moved same => ⟨same.id, ?_, ?_⟩
    · simpa only [List.map_id] using same.batches
    · simpa only [List.map_id] using same.joins

/-- How often a review finds what does not depend on the order of chains and regions, on the order within
batches, or on how joins are listed, even where ids are repeated or unknown. -/
theorem review_of_rearranged (settings : Settings) (graph : Graph) (rearranged : partition.Rearranges other) :
    (partition.review settings graph).SameCounts (other.review settings graph) :=
  sameCounts_review_of_matches (Graph.Matches.refl graph) Function.injective_id rearranged.matches

def cluttered : Partition where
  chains := [{ id := "head", path := ["d"] }, { id := "head" }]
  regions := [{ id := "body", batches := [["a"], ["b", "x", "b"]], joins := ["b", "c"] }, { id := "body" }]

theorem review_cluttered :
    let tidied : Partition := { chains := [{ id := "head" }, { id := "head", path := ["d"] }], regions :=
      [{ id := "body" }, { id := "body", batches := [["a"], ["x", "b", "b"]], joins := ["c", "b", "c"] }] }
    cluttered.Rearranges tidied ∧ (cluttered.review {} diamondGraph).errors.length = 3 ∧
      (cluttered.review {} diamondGraph).SameCounts (tidied.review {} diamondGraph) := by
  intro tidied
  have joins : ∀ node, node ∈ ["c", "b", "c"] ↔ node ∈ ["b", "c"] := by
    intro node
    simp only [List.mem_cons, List.not_mem_nil, or_false]
    tauto
  have rearranged : cluttered.Rearranges tidied :=
    ⟨.swap _ _ [], tidied.regions.reverse, .cons ⟨rfl, .cons .rfl (.cons (.swap _ _ _) .nil), joins⟩
      (.cons ⟨rfl, .nil, fun _ => .rfl⟩ .nil), .swap _ _ []⟩
  exact ⟨rearranged, by decide +kernel, review_of_rearranged {} diamondGraph rearranged⟩

/-- What compiling needs, whether or not reviews and audits are asked for. -/
theorem exists_compile_iff :
    (∃ machine, partition.compile settings graph = .ok machine) ↔
      (settings.reviewPartition = true → (partition.review settings graph).hasErrors = false) ∧
        (∀ key ∈ partition.listed, graph.contains key = true) ∧ (partition.machine graph).ids.Nodup ∧
          (settings.auditMachine = true → (partition.machine graph).audit.hasErrors = false) := by
  simp only [compile_eq_ok_iff, emit_eq_ok_iff_nodup_ids]
  constructor
  · rintro ⟨machine, reviewed, ⟨known, distinct, rfl⟩, audited⟩
    exact ⟨reviewed, known, distinct, audited⟩
  · rintro ⟨reviewed, known, distinct, audited⟩
    exact ⟨_, reviewed, ⟨known, distinct, rfl⟩, audited⟩

theorem exists_error_iff {error value : Type} {result : Except error value} :
    (∃ fault, result = .error fault) ↔ ¬∃ made, result = .ok made := by
  cases result <;> simp

section

variable (chains : partition.chains.Perm other.chains) (regions : partition.regions.Perm other.regions)
include chains regions

theorem rearranges_of_perm : partition.Rearranges other :=
  ⟨chains, _, List.forall₂_same.2 fun _ _ => ⟨rfl, List.forall₂_same.2 fun _ _ => .rfl, fun _ => .rfl⟩, regions⟩

theorem perm_stages : (partition.stages graph).Perm (other.stages graph) :=
  (chains.flatMap_right _).append (regions.flatMap_right _)

theorem perm_states_machine : (partition.machine graph).states.Perm (other.machine graph).states :=
  ((perm_stages chains regions).map State.stage).append_right _

theorem shuffles_machine : (partition.machine graph).Shuffles (other.machine graph) := by
  refine ⟨_, List.forall₂_same.2 fun state _ => ?_, perm_states_machine chains regions⟩
  cases state with
  | stage stage => exact .stage .rfl
  | final name => exact .final name

theorem exists_compile_congr :
    (∃ machine, partition.compile settings graph = .ok machine) ↔
      ∃ machine, other.compile settings graph = .ok machine := by
  have rearranged := (rearranges_of_perm chains regions).matches
  have reviews : (partition.review settings graph).hasErrors = (other.review settings graph).hasErrors :=
    (sameCounts_review_of_matches (Graph.Matches.refl graph) Function.injective_id rearranged).hasErrors_eq
  have ids : (partition.machine graph).ids.Perm (other.machine graph).ids :=
    (perm_states_machine chains regions).map State.id
  have listed : partition.listed.Perm other.listed := by simpa only [List.map_id] using rearranged.perm_listed
  have audits : (other.machine graph).audit.hasErrors = (partition.machine graph).audit.hasErrors :=
    (shuffles_machine chains regions).matches.hasErrors_audit_eq Function.injective_id fun _ => rfl
  simp only [exists_compile_iff, reviews, ids.nodup_iff, audits, listed.mem_iff]

/-- Moving chains and regions neither makes nor breaks a compilation, and it moves the states before the two
endings, each of them unchanged. -/
theorem compile_of_permuted (settings : Settings) (graph : Graph) :
    ((∃ error, partition.compile settings graph = .error error) ↔
      ∃ error, other.compile settings graph = .error error) ∧
    ∀ machine moved, partition.compile settings graph = .ok machine → other.compile settings graph = .ok moved →
      ∃ body shuffled, body.Perm shuffled ∧
        machine.states = body ++ [.final Ending.success.id, .final Ending.failure.id] ∧
        moved.states = shuffled ++ [.final Ending.success.id, .final Ending.failure.id] := by
  constructor
  · rw [exists_error_iff, exists_error_iff, exists_compile_congr chains regions]
  · intro machine moved compiled recompiled
    rw [eq_machine_of_compile compiled, eq_machine_of_compile recompiled]
    exact ⟨_, _, (perm_stages chains regions).map State.stage, rfl, rfl⟩

end

def scattered : Partition where
  chains := [{ id := "first", path := ["a"] }, { id := "last", path := ["d"] }]
  regions := [{ id := "left", batches := [["b"]] }, { id := "right", batches := [["c"]] }]

theorem compile_scattered :
    let reversed : Partition := ⟨scattered.chains.reverse, scattered.regions.reverse⟩
    ∃ machine moved, scattered.compile {} diamondGraph = .ok machine ∧
      reversed.compile {} diamondGraph = .ok moved ∧ machine ≠ moved ∧ ∃ body shuffled, body.Perm shuffled ∧
        machine.states = body ++ [.final Ending.success.id, .final Ending.failure.id] ∧
        moved.states = shuffled ++ [.final Ending.success.id, .final Ending.failure.id] := by
  intro reversed
  have compiled : scattered.compile {} diamondGraph = .ok (scattered.machine diamondGraph) :=
    (consistent_of_accepted (by decide +kernel)).compile
  have recompiled : reversed.compile {} diamondGraph = .ok (reversed.machine diamondGraph) :=
    (consistent_of_accepted (by decide +kernel)).compile
  exact ⟨_, _, compiled, recompiled, by decide +kernel,
    (compile_of_permuted (.swap _ _ []) (.swap _ _ []) {} diamondGraph).2 _ _ compiled recompiled⟩

end Partition

end Orchestration
