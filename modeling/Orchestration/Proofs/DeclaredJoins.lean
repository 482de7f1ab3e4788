import Mathlib.Data.List.Sort
import Mathlib.Data.String.Basic
import Orchestration.Proofs.Strictness

/-! Declared joins. A region that declares joins has to declare the nodes it ends in, in whatever order and
however often. A review names every region that does not, with the ids that are only declared or only in its
last batch. One walk over both sets in ascending order finds these ids. -/

set_option autoImplicit false

namespace Orchestration

namespace Ids

/-- The ids that one walk over two ascending lists meets in one of them only. -/
def unshared : List String → List String → List String
  | [], right => right
  | left, [] => left
  | id :: left, other :: right =>
    if id < other then id :: unshared left (other :: right)
    else if other < id then other :: unshared (id :: left) right
    else unshared left right
termination_by left right => left.length + right.length

theorem not_mem_of_lt_head {id head : String} {rest : List String}
    (ascending : (head :: rest).Pairwise (· < ·)) (less : id < head) : id ∉ head :: rest := by
  intro member
  rcases List.mem_cons.1 member with same | later
  · exact String.lt_irrefl _ (same ▸ less)
  · exact String.lt_irrefl id (less.trans (List.rel_of_pairwise_cons ascending later))

theorem mem_unshared {left right : List String} (first : left.Pairwise (· < ·))
    (second : right.Pairwise (· < ·)) {id : String} :
    id ∈ unshared left right ↔ id ∈ left ∧ id ∉ right ∨ id ∈ right ∧ id ∉ left := by
  fun_induction unshared left right with
  | case1 right => simp
  | case2 left => simp
  | case3 head left other right less ih =>
    have alone : head ∉ other :: right := not_mem_of_lt_head second less
    by_cases same : id = head
    · subst same
      simp [alone]
    · simp [same, ih first.of_cons second]
  | case4 head left other right _ less ih =>
    have alone : other ∉ head :: left := not_mem_of_lt_head first less
    by_cases same : id = other
    · subst same
      simp [alone]
    · simp [same, ih first second.of_cons]
  | case5 head left other right notLess notMore ih =>
    obtain rfl : head = other := le_antisymm (not_lt.1 notMore) (not_lt.1 notLess)
    have fresh : head ∉ left := fun member => String.lt_irrefl _ (List.rel_of_pairwise_cons first member)
    have alsoFresh : head ∉ right := fun member => String.lt_irrefl _ (List.rel_of_pairwise_cons second member)
    by_cases same : id = head
    · subst same
      simp [ih first.of_cons second.of_cons, fresh, alsoFresh]
    · simp [same, ih first.of_cons second.of_cons]

theorem mem_or_mem_of_mem_unshared {left right : List String} (first : left.Pairwise (· < ·))
    (second : right.Pairwise (· < ·)) {id : String} (member : id ∈ unshared left right) :
    id ∈ left ∨ id ∈ right :=
  ((mem_unshared first second).1 member).imp And.left And.left

theorem pairwise_unshared {left right : List String} (first : left.Pairwise (· < ·))
    (second : right.Pairwise (· < ·)) : (unshared left right).Pairwise (· < ·) := by
  fun_induction unshared left right with
  | case1 right => exact second
  | case2 left => exact first
  | case3 head left other right less ih =>
    refine List.pairwise_cons.2 ⟨fun id member => ?_, ih first.of_cons second⟩
    rcases mem_or_mem_of_mem_unshared first.of_cons second member with behind | across
    · exact List.rel_of_pairwise_cons first behind
    · rcases List.mem_cons.1 across with rfl | later
      · exact less
      · exact less.trans (List.rel_of_pairwise_cons second later)
  | case4 head left other right _ less ih =>
    refine List.pairwise_cons.2 ⟨fun id member => ?_, ih first second.of_cons⟩
    rcases mem_or_mem_of_mem_unshared first second.of_cons member with across | behind
    · rcases List.mem_cons.1 across with rfl | later
      · exact less
      · exact less.trans (List.rel_of_pairwise_cons first later)
    · exact List.rel_of_pairwise_cons second behind
  | case5 head left other right _ _ ih => exact ih first.of_cons second.of_cons

/-- The difference of two lists is found by one walk over what they list, in ascending order. -/
theorem difference_eq_unshared (left right : List String) :
    difference left right = unshared (ascending left) (ascending right) := by
  have first := pairwise_ascending left
  have second := pairwise_ascending right
  have members : ∀ id, id ∈ difference left right ↔ id ∈ unshared (ascending left) (ascending right) := by
    intro id
    rw [mem_unshared first second, mem_difference, mem_ascending, mem_ascending]
  exact (pairwise_ascending _).eq_of_mem_iff (pairwise_unshared first second) members

end Ids

namespace Region

def EndsIn (region : Region) (node : String) : Prop :=
  ∃ batch, region.batches.getLast? = some batch ∧ node ∈ batch

/-- The region declares joins, but not the nodes it ends in. -/
def Misdeclares (region : Region) : Prop :=
  region.joins ≠ [] ∧ ¬ ∀ node, node ∈ region.joins ↔ region.EndsIn node

variable {region : Region}

theorem mem_lastBatch {node : String} : node ∈ region.lastBatch ↔ region.EndsIn node := by
  rw [lastBatch, List.getLastD_eq_getLast?, EndsIn]
  cases region.batches.getLast? <;> simp

theorem misdeclares_iff :
    region.Misdeclares ↔ region.joins ≠ [] ∧ Ids.difference region.joins region.lastBatch ≠ [] := by
  simp only [Misdeclares, Ne, Ids.difference_eq_nil_iff, mem_lastBatch]

instance : DecidablePred Misdeclares := fun _ => decidable_of_iff _ misdeclares_iff.symm

end Region

namespace Partition

theorem joinIssue?_eq_ite (region : Region) :
    joinIssue? region = if region.Misdeclares then
      some (.joinMismatch region.id (Ids.difference region.joins region.lastBatch)) else none := by
  simp only [joinIssue?, Region.misdeclares_iff, Ne, ← not_or, ite_not]

theorem filterMap_joinIssue? (regions : List Region) :
    regions.filterMap joinIssue? = (regions.filter Region.Misdeclares).map fun region =>
      .joinMismatch region.id (Ids.difference region.joins region.lastBatch) := by
  rw [← List.filterMap_eq_map, List.filterMap_filter]
  apply List.filterMap_congr
  intro region _
  simp only [joinIssue?_eq_ite, decide_eq_true_eq, Function.comp_apply]

structure Contrasts (settings : Settings) (region : Region) (finding : Finding Issue) : Prop where
  weight : joinWeight? settings.joinPolicy = some finding.severity
  entries : finding.issue.entries = [region.id]
  ascending : finding.issue.nodes.Pairwise (· < ·)
  nonempty : finding.issue.nodes ≠ []
  nodes : ∀ node, node ∈ finding.issue.nodes ↔
    node ∈ region.joins ∧ ¬ region.EndsIn node ∨ region.EndsIn node ∧ node ∉ region.joins
  walk : finding.issue.nodes = Ids.unshared (Ids.ascending region.joins) (Ids.ascending region.lastBatch)

theorem Contrasts.of_misdeclares {settings : Settings} {severity : Severity} {region : Region}
    (weight : joinWeight? settings.joinPolicy = some severity) (misdeclares : region.Misdeclares) :
    Contrasts settings region
      ⟨severity, .joinMismatch region.id (Ids.difference region.joins region.lastBatch)⟩ where
  weight := weight
  entries := rfl
  ascending := Ids.pairwise_ascending _
  nonempty := (Region.misdeclares_iff.1 misdeclares).2
  nodes _ := by rw [Issue.nodes, Ids.mem_difference, Region.mem_lastBatch]
  walk := Ids.difference_eq_unshared ..

/-- Unless the settings ignore joins, the findings about them are, in the order of the regions, one for each
region that declares joins other than the nodes it ends in, and none for the others. Each names its region
and, in ascending order, the nodes that make the difference. -/
theorem joins_reported {settings : Settings} (heeded : settings.joinPolicy ≠ .ignore) (graph : Graph)
    (partition : Partition) :
    List.Forall₂ (Contrasts settings) (partition.regions.filter Region.Misdeclares)
      ((partition.review settings graph).items.filter (·.issue.category = .joinMismatch)) := by
  obtain ⟨severity, weight⟩ := exists_joinWeight heeded
  rw [items_joinMismatch weight, filterMap_joinIssue?, List.map_map, List.forall₂_map_right_iff,
    List.forall₂_same]
  intro region member
  have misdeclares := of_decide_eq_true (List.mem_filter.1 member).2
  exact .of_misdeclares weight misdeclares

def careless : Partition where
  regions := [{ id := "exact", batches := [["a"], ["b", "c"]], joins := ["c", "b", "c"] },
    { id := "silent", batches := [["d"]] },
    { id := "fan", batches := [["e"], ["g", "f", "f"]], joins := ["f", "e"] },
    { id := "fan", joins := ["h"] },
    { id := "open", batches := [["i"], []], joins := ["j", "i", "j"] }]

theorem joins_reported_careless :
    ({} : Settings).joinPolicy ≠ .ignore ∧
      List.Forall₂ (Contrasts {}) (careless.regions.filter Region.Misdeclares)
        ((careless.review {} {}).items.filter (·.issue.category = .joinMismatch)) ∧
      (careless.regions.filter Region.Misdeclares).map Region.id = ["fan", "fan", "open"] ∧
      ((careless.review {} {}).items.filter (·.issue.category = .joinMismatch)).map (·.issue.nodes) =
        [["e", "g"], ["h"], ["i", "j"]] := by
  have heeded : ({} : Settings).joinPolicy ≠ .ignore := by decide
  refine ⟨heeded, joins_reported heeded {} careless, ?_, ?_⟩
  · decide +kernel
  · decide +kernel

end Partition

end Orchestration
