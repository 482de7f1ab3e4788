import Mathlib.Data.List.Forall2
import Orchestration.Proofs.Categories

/-! Lists that correspond entry by entry, in whatever order. What does not depend on the order of entries comes
out alike for both, and so do the counts of a report: they see the severity and the category of an issue only. -/

set_option autoImplicit false

namespace Orchestration

section

variable {α β : Type} {first : List α} {second : List β} {change : α → β} (perm : (first.map change).Perm second)
include perm

theorem mem_of_map_perm (injective : Function.Injective change) {entry : α} :
    change entry ∈ second ↔ entry ∈ first :=
  perm.mem_iff.symm.trans (List.mem_map_of_injective injective)

theorem perm_filter_of_map_perm {before : α → Bool} {after : β → Bool}
    (each : ∀ entry, after (change entry) = before entry) :
    ((first.filter before).map change).Perm (second.filter after) := by
  have same : after ∘ change = before := funext each
  rw [← same, ← List.filter_map]
  exact perm.filter after

theorem length_filter_of_map_perm {before : α → Bool} {after : β → Bool}
    (each : ∀ entry, after (change entry) = before entry) :
    (first.filter before).length = (second.filter after).length := by
  rw [← (perm_filter_of_map_perm perm each).length_eq, List.length_map]

/-- The only entry stays the only one. -/
theorem singleton_iff_of_map_perm {before : α → Prop} {after : β → Prop}
    (each : ∀ entry, after (change entry) ↔ before entry) :
    (∃ changed, second = [changed] ∧ after changed) ↔ ∃ entry, first = [entry] ∧ before entry := by
  constructor
  · rintro ⟨changed, rfl, holds⟩
    obtain ⟨entry, single, rfl⟩ := List.map_eq_singleton_iff.1 (List.perm_singleton.1 perm)
    exact ⟨entry, single, (each entry).1 holds⟩
  · rintro ⟨entry, rfl, holds⟩
    exact ⟨change entry, (List.singleton_perm.1 perm).symm, (each entry).2 holds⟩

end

/-- The second list is the first after every entry has been changed as the relation allows, and then moved. -/
def Rearranged {α β : Type} (related : α → β → Prop) (first : List α) (second : List β) : Prop :=
  ∃ changed, List.Forall₂ related first changed ∧ changed.Perm second

namespace Rearranged

variable {α β γ : Type} {related : α → β → Prop} {first : List α} {second : List β}

theorem of_map_perm {change : α → β} (perm : (first.map change).Perm second) :
    Rearranged (fun entry changed => changed = change entry) first second :=
  ⟨first.map change, List.forall₂_map_right_iff.2 (List.forall₂_same.2 fun _ _ => rfl), perm⟩

theorem mono {other : α → β → Prop} (weaker : ∀ entry changed, related entry changed → other entry changed)
    (rearranged : Rearranged related first second) : Rearranged other first second := by
  obtain ⟨changed, pairs, perm⟩ := rearranged
  exact ⟨changed, pairs.imp weaker, perm⟩

theorem flatMap_perm {before : α → List γ} {after : β → List γ}
    (each : ∀ entry changed, related entry changed → (before entry).Perm (after changed))
    (rearranged : Rearranged related first second) : (first.flatMap before).Perm (second.flatMap after) := by
  obtain ⟨changed, pairs, perm⟩ := rearranged
  have inPlace : (first.flatMap before).Perm (changed.flatMap after) := by
    clear perm
    induction pairs with
    | nil => exact List.Perm.refl []
    | cons related _ ih => exact (each _ _ related).append ih
  exact inPlace.trans (perm.flatMap_right after)

theorem map_perm {before : α → γ} {after : β → γ}
    (each : ∀ entry changed, related entry changed → before entry = after changed)
    (rearranged : Rearranged related first second) : (first.map before).Perm (second.map after) := by
  rw [List.map_eq_flatMap, List.map_eq_flatMap]
  exact rearranged.flatMap_perm fun entry changed related => by rw [each entry changed related]

theorem countP_eq {before : α → Bool} {after : β → Bool}
    (each : ∀ entry changed, related entry changed → before entry = after changed)
    (rearranged : Rearranged related first second) : first.countP before = second.countP after := by
  have counts := (rearranged.map_perm each).countP_eq id
  rwa [List.countP_map, List.countP_map] at counts

/-- Some entry has a property exactly if some entry has the corresponding one after the change. -/
theorem exists_iff {before : α → Prop} {after : β → Prop}
    (each : ∀ entry changed, related entry changed → (before entry ↔ after changed))
    (rearranged : Rearranged related first second) :
    (∃ entry ∈ first, before entry) ↔ ∃ changed ∈ second, after changed := by
  have members := (rearranged.map_perm fun entry changed related =>
    propext (each entry changed related)).mem_iff (a := True)
  simpa only [List.mem_map, eq_iff_iff, iff_true] using members

theorem forall_iff {before : α → Prop} {after : β → Prop}
    (each : ∀ entry changed, related entry changed → (before entry ↔ after changed))
    (rearranged : Rearranged related first second) :
    (∀ entry ∈ first, before entry) ↔ ∀ changed ∈ second, after changed := by
  have exceptions := rearranged.exists_iff fun entry changed related =>
    not_congr (each entry changed related)
  simpa only [not_exists, not_and, not_not] using not_congr exceptions

end Rearranged

namespace Report

variable {ι : Type} [Reportable ι]

/-- In every category two reports have as many errors and as many warnings. -/
def SameCounts (report other : Report ι) : Prop :=
  ∀ category,
    report.errors.countP (Reportable.category ·.issue = category) =
      other.errors.countP (Reportable.category ·.issue = category) ∧
    report.warnings.countP (Reportable.category ·.issue = category) =
      other.warnings.countP (Reportable.category ·.issue = category)

theorem countP_filter_ofIssues (grade : ι → Option Severity) (issues : List ι) (severity : Severity)
    (category : Category) :
    ((ofIssues grade issues).findings.filter (·.severity = severity)).countP
        (Reportable.category ·.issue = category) =
      (issues.map fun issue => (grade issue, Reportable.category issue)).count (some severity, category) := by
  rw [List.countP_filter, ofIssues, List.countP_filterMap, List.count, List.countP_map]
  apply List.countP_congr
  intro issue _
  cases graded : grade issue <;> simp [graded, and_comm]

theorem sameCounts_ofIssues {grade : ι → Option Severity} {issues others : List ι}
    (perm : (issues.map fun issue => (grade issue, Reportable.category issue)).Perm
      (others.map fun issue => (grade issue, Reportable.category issue))) :
    (ofIssues grade issues).SameCounts (ofIssues grade others) := by
  intro category
  simp only [errors, warnings, countP_filter_ofIssues]
  exact ⟨perm.count_eq _, perm.count_eq _⟩

theorem SameCounts.hasErrors_eq {report other : Report ι} (same : report.SameCounts other) :
    report.hasErrors = other.hasErrors := by
  have silent : ∀ findings : List (Finding ι), findings = [] ↔
      ∀ category, findings.countP (Reportable.category ·.issue = category) = 0 := by
    intro findings
    simp only [List.countP_eq_zero, List.eq_nil_iff_forall_not_mem, decide_eq_true_eq]
    exact ⟨fun none _ finding member => absurd member (none finding),
      fun none finding member => none _ finding member rfl⟩
  have errors : report.errors = [] ↔ other.errors = [] := by
    rw [silent, silent]
    exact forall_congr' fun category => by rw [(same category).1]
  rw [hasErrors, hasErrors, Bool.not_inj_iff, Bool.eq_iff_iff, List.isEmpty_iff, List.isEmpty_iff, errors]

end Report

namespace Partition

def Issue.mark (settings : Settings) (issue : Issue) : Option Severity × Category :=
  (issue.grade settings, issue.category)

def Alike (settings : Settings) (issues others : List Issue) : Prop :=
  (issues.map (Issue.mark settings)).Perm (others.map (Issue.mark settings))

variable {settings : Settings} {issues others : List Issue}

theorem Alike.append {more further : List Issue} (alike : Alike settings issues others)
    (also : Alike settings more further) : Alike settings (issues ++ more) (others ++ further) := by
  unfold Alike
  rw [List.map_append, List.map_append]
  exact List.Perm.append alike also

theorem alike_flatMap {α β : Type} {related : α → β → Prop} {first : List α} {second : List β}
    {before : α → List Issue} {after : β → List Issue}
    (each : ∀ entry changed, related entry changed → Alike settings (before entry) (after changed))
    (rearranged : Rearranged related first second) :
    Alike settings (first.flatMap before) (second.flatMap after) := by
  unfold Alike
  rw [List.map_flatMap, List.map_flatMap]
  exact rearranged.flatMap_perm each

theorem alike_filterMap {α β : Type} {related : α → β → Prop} {first : List α} {second : List β}
    {before : α → Option Issue} {after : β → Option Issue}
    (each : ∀ entry changed, related entry changed →
      (before entry).map (Issue.mark settings) = (after changed).map (Issue.mark settings))
    (rearranged : Rearranged related first second) :
    Alike settings (first.filterMap before) (second.filterMap after) := by
  rw [List.filterMap_eq_flatMap_toList, List.filterMap_eq_flatMap_toList]
  refine alike_flatMap (fun entry changed related => ?_) rearranged
  unfold Alike
  rw [← Option.toList_map, ← Option.toList_map, each entry changed related]

/-- Issues of one sort are counted by their number alone. -/
theorem alike_map {α β : Type} {first : List α} {second : List β} {before : α → Issue} {after : β → Issue}
    (mark : Option Severity × Category) (marked : ∀ source, (before source).mark settings = mark)
    (alsoMarked : ∀ source, (after source).mark settings = mark) (lengths : first.length = second.length) :
    Alike settings (first.map before) (second.map after) := by
  unfold Alike
  have all : ∀ issue ∈ first.map before, issue.mark settings = mark :=
    List.forall_mem_map.2 fun source _ => marked source
  have also : ∀ issue ∈ second.map after, issue.mark settings = mark :=
    List.forall_mem_map.2 fun source _ => alsoMarked source
  rw [List.map_eq_replicate_iff.2 all, List.map_eq_replicate_iff.2 also, List.length_map, List.length_map,
    lengths]

theorem Alike.sameCounts (alike : Alike settings issues others) :
    (Report.ofIssues (Issue.grade settings) issues).SameCounts
      (Report.ofIssues (Issue.grade settings) others) :=
  Report.sameCounts_ofIssues alike

end Partition

end Orchestration
