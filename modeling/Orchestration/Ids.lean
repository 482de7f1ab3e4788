import Std.Data.TreeMap
import Std.Data.TreeSet

/-! Lists of ids read as finite sets. Ids are ordered by code point, which is also
the order of their UTF-8 bytes, so every list produced here has one possible form. -/

set_option autoImplicit false

namespace Orchestration.Ids

def ascending (ids : List String) : List String :=
  (Std.TreeSet.ofList ids).toList

@[simp] theorem mem_ascending {ids : List String} {id : String} :
    id ∈ ascending ids ↔ id ∈ ids := by
  simp [ascending, Std.TreeSet.mem_toList, Std.TreeSet.mem_ofList]

theorem pairwise_ascending (ids : List String) : (ascending ids).Pairwise (· < ·) :=
  have ordered := (Std.TreeSet.ofList ids).ordered_toList
  ordered.imp fun less => compareOfLessAndEq_eq_lt.1 less

theorem nodup_ascending (ids : List String) : (ascending ids).Nodup :=
  (pairwise_ascending ids).imp fun less => String.ne_of_lt less

/-- The ids of exactly one of two lists, in strictly ascending order. -/
def difference (left right : List String) : List String :=
  ascending (left.filter (· ∉ right) ++ right.filter (· ∉ left))

@[simp] theorem mem_difference {left right : List String} {id : String} :
    id ∈ difference left right ↔ id ∈ left ∧ id ∉ right ∨ id ∈ right ∧ id ∉ left := by
  simp [difference]

theorem difference_eq_nil_iff {left right : List String} :
    difference left right = [] ↔ ∀ id, id ∈ left ↔ id ∈ right := by
  simp only [List.eq_nil_iff_forall_not_mem, mem_difference]
  exact forall_congr' fun id => by by_cases id ∈ left <;> by_cases id ∈ right <;> simp_all

def tally (ids : List String) : Std.TreeMap String Nat :=
  ids.foldl (fun counts id => counts.insert id (counts.getD id 0 + 1)) ∅

def repeated (ids : List String) : List (String × Nat) :=
  (tally ids).toList.filter fun (_, uses) => 1 < uses

theorem getElem?_foldl_tally (ids : List String) (counts : Std.TreeMap String Nat) (id : String) :
    (ids.foldl (fun counts id => counts.insert id (counts.getD id 0 + 1)) counts)[id]? =
      if id ∈ ids then some (counts.getD id 0 + ids.count id) else counts[id]? := by
  induction ids generalizing counts with
  | nil => simp
  | cons first rest ih =>
    rw [List.foldl_cons, ih, Std.TreeMap.getD_insert, Std.TreeMap.getElem?_insert]
    by_cases same : id = first
    · subst same
      by_cases again : id ∈ rest
      · simp [again, Nat.add_assoc, Nat.add_comm 1]
      · simp [again, List.count_eq_zero_of_not_mem again]
    · simp [same, Ne.symm same]

theorem getElem?_tally (ids : List String) (id : String) :
    (tally ids)[id]? = if id ∈ ids then some (ids.count id) else none := by
  rw [tally, getElem?_foldl_tally]
  simp

theorem mem_repeated {ids : List String} {id : String} {uses : Nat} :
    (id, uses) ∈ repeated ids ↔ uses = ids.count id ∧ 1 < uses := by
  rw [repeated, List.mem_filter, Std.TreeMap.mem_toList_iff_getElem?_eq_some, getElem?_tally]
  by_cases listed : id ∈ ids
  · simp [listed, eq_comm]
  · have none := List.count_eq_zero_of_not_mem listed
    simp only [listed, if_false, reduceCtorEq, false_and, false_iff]
    omega

theorem repeated_eq_nil_iff {ids : List String} : repeated ids = [] ↔ ids.Nodup := by
  rw [List.nodup_iff_count]
  constructor
  · intro none id
    refine Nat.le_of_not_lt fun many => ?_
    have member : (id, ids.count id) ∈ repeated ids := mem_repeated.2 ⟨rfl, many⟩
    simp [none] at member
  · intro single
    refine List.eq_nil_iff_forall_not_mem.2 fun ⟨id, uses⟩ member => ?_
    obtain ⟨rfl, many⟩ := mem_repeated.1 member
    exact absurd (single id) (by omega)

end Orchestration.Ids
