import Orchestration.Machine.StateId
import Std.Data.String.ToNat
import Mathlib.Data.Set.Function

/-! State ids are unambiguous: whatever the ids of nodes and regions contain, the spelling of a
state id tells what the state stands for. Only the letters of the fixed parts have to be told apart
for that, so it holds in every alphabet that has those: of texts, and of ids that are any bytes. -/

set_option autoImplicit false

namespace Orchestration

/-- What a state stands for, under ids that are lists of any letters. -/
inductive Label (Letter : Type) where
  | task (node : List Letter)
  | batchStart (region : List Letter) (batch : Nat)
  | batchJoin (region : List Letter) (batch : Nat)
  | final (ending : Ending)

namespace Label

def ascii : Set Char :=
  {c | c.toNat < 128}

instance : DecidablePred (· ∈ ascii) := fun c => inferInstanceAs (Decidable (c.toNat < 128))

variable {Letter : Type} (letter : Char → Letter)

def spell (text : String) : List Letter :=
  text.toList.map letter

def place (region : List Letter) (batch : Nat) : List Letter :=
  spell letter "bu_" ++ region ++ spell letter "_batch_" ++ spell letter (toString batch)

def spelling : Label Letter → List Letter
  | task node => spell letter "exec_" ++ node
  | batchStart region batch => place letter region batch ++ spell letter "_start"
  | batchJoin region batch => place letter region batch ++ spell letter "_join"
  | final ending => spell letter ending.id

/-- The first letter tells tasks, batches and the two endings apart. -/
def initial : Label Letter → Char
  | task _ => 'e'
  | batchStart _ _ => 'b'
  | batchJoin _ _ => 'b'
  | final .success => 's'
  | final .failure => 'f'

theorem initial_mem_ascii (label : Label Letter) : label.initial ∈ ascii := by
  rcases label with _ | _ | _ | _ | _ <;> simp [initial, ascii]

theorem head?_spelling (label : Label Letter) : (label.spelling letter).head? = some (letter label.initial) := by
  cases label with
  | final ending => cases ending <;> rfl
  | _ => simp [spelling, place, spell, initial]

theorem getLast?_batchStart (region : List Letter) (batch : Nat) :
    ((batchStart region batch).spelling letter).getLast? = some (letter 't') := by
  simp [spelling, spell, List.getLast?_append]

theorem getLast?_batchJoin (region : List Letter) (batch : Nat) :
    ((batchJoin region batch).spelling letter).getLast? = some (letter 'n') := by
  simp [spelling, spell, List.getLast?_append]

/-- A separator that is not in the rest of a list splits it in one way. -/
theorem append_cons_inj {first second left right : List Letter} {separator : Letter}
    (inLeft : separator ∉ left) (inRight : separator ∉ right)
    (same : first ++ separator :: left = second ++ separator :: right) : first = second ∧ left = right := by
  -- if one prefix were longer, its separator would stand in the rest of the other list
  rcases List.append_eq_append_iff.1 same with ⟨extra, rfl, rest⟩ | ⟨extra, rfl, rest⟩
  · cases extra with
    | nil => simpa using rest
    | cons c extra =>
      obtain ⟨rfl, rfl⟩ := List.cons.inj rest
      simp at inLeft
  · cases extra with
    | nil => simpa [eq_comm] using rest
    | cons c extra =>
      obtain ⟨rfl, rfl⟩ := List.cons.inj rest
      simp at inRight

theorem isDigit_of_mem_repr {n : Nat} {c : Char} (member : c ∈ n.repr.toList) : c.isDigit = true := by
  rw [Nat.toList_repr] at member
  exact Nat.isDigit_of_mem_toDigits (by decide) (by decide) member

theorem mem_ascii_of_isDigit {c : Char} (digit : c.isDigit = true) : c ∈ ascii := by
  simp only [Char.isDigit, Bool.and_eq_true, decide_eq_true_eq] at digit
  exact Nat.lt_of_le_of_lt digit.2 (by decide)

section

variable (faithful : Set.InjOn letter ascii)
include faithful

theorem map_inj {left right : List Char} (inLeft : ∀ c ∈ left, c ∈ ascii) (inRight : ∀ c ∈ right, c ∈ ascii)
    (same : left.map letter = right.map letter) : left = right := by
  induction left generalizing right with
  | nil => exact (List.map_eq_nil_iff.1 same.symm).symm
  | cons c left ih =>
    cases right with
    | nil => cases same
    | cons d right =>
      obtain ⟨here, later⟩ := List.cons.inj same
      rw [List.forall_mem_cons] at inLeft inRight
      rw [faithful inLeft.1 inRight.1 here, ih inLeft.2 inRight.2 later]

/-- Region and batch number are recovered from what stands before the ending of a batch's id. -/
theorem place_inj {region other : List Letter} {batch number : Nat}
    (same : place letter region batch = place letter other number) : region = other ∧ batch = number := by
  have parted : ∀ (id : List Letter) (n : Nat), place letter id n =
      (spell letter "bu_" ++ id ++ spell letter "_batch") ++ letter '_' :: n.repr.toList.map letter := by
    intro id n
    simp [place, spell]
  have plain : ∀ n : Nat, letter '_' ∉ n.repr.toList.map letter := by
    intro n among
    obtain ⟨c, member, alike⟩ := List.mem_map.1 among
    have digit := isDigit_of_mem_repr member
    rw [faithful (mem_ascii_of_isDigit digit) (by decide) alike] at digit
    exact absurd digit (by decide)
  rw [parted, parted] at same
  obtain ⟨before, digits⟩ := append_cons_inj (plain batch) (plain number) same
  have ids := List.append_cancel_left (List.append_cancel_right before)
  have numbers := map_inj letter faithful (fun c member => mem_ascii_of_isDigit (isDigit_of_mem_repr member))
    (fun c member => mem_ascii_of_isDigit (isDigit_of_mem_repr member)) digits
  exact ⟨ids, Nat.repr_inj.1 (String.toList_inj.1 numbers)⟩

theorem batchStart_ne_batchJoin (region other : List Letter) (batch number : Nat) :
    (batchStart region batch).spelling letter ≠ (batchJoin other number).spelling letter := by
  intro same
  have last := congrArg List.getLast? same
  rw [getLast?_batchStart, getLast?_batchJoin, Option.some.injEq] at last
  exact absurd (faithful (by decide) (by decide) last) (by decide)

theorem spelling_injective : Function.Injective (spelling letter) := by
  intro first second same
  have heads : first.initial = second.initial := by
    have letters := congrArg List.head? same
    rw [head?_spelling, head?_spelling, Option.some.injEq] at letters
    exact faithful first.initial_mem_ascii second.initial_mem_ascii letters
  -- Equal first letters leave the pairs of one kind, and a start against a join.
  cases first with
  | task node =>
    cases second with
    | task other => rw [List.append_cancel_left same]
    | final ending => cases ending <;> simp [initial] at heads
    | _ => simp [initial] at heads
  | batchStart region batch =>
    cases second with
    | batchStart other number =>
      obtain ⟨rfl, rfl⟩ := place_inj letter faithful (List.append_cancel_right same)
      rfl
    | batchJoin other number => exact absurd same (batchStart_ne_batchJoin letter faithful region other batch number)
    | task other => simp [initial] at heads
    | final ending => cases ending <;> simp [initial] at heads
  | batchJoin region batch =>
    cases second with
    | batchJoin other number =>
      obtain ⟨rfl, rfl⟩ := place_inj letter faithful (List.append_cancel_right same)
      rfl
    | batchStart other number =>
      exact absurd same.symm (batchStart_ne_batchJoin letter faithful other region number batch)
    | task other => simp [initial] at heads
    | final ending => cases ending <;> simp [initial] at heads
  | final ending =>
    cases second with
    | final other => cases ending <;> cases other <;> simp [initial] at heads ⊢
    | _ => cases ending <;> simp [initial] at heads

end

/-- Ids may be any bytes. -/
theorem spelling_toUInt8_injective : Function.Injective (spelling Char.toUInt8) := by
  apply spelling_injective
  intro c inAscii d alsoAscii same
  have codes := congrArg UInt8.toNat same
  simp only [Char.toUInt8, UInt32.toNat_toUInt8] at codes
  have first : c.val.toNat < 128 := inAscii
  have second : d.val.toNat < 128 := alsoAscii
  exact Char.toNat_inj.1 (show c.val.toNat = d.val.toNat by omega)

end Label

namespace StateId

def label : StateId → Label Char
  | task node => .task node.toList
  | batchStart region batch => .batchStart region.toList batch
  | batchJoin region batch => .batchJoin region.toList batch
  | final ending => .final ending

theorem toList_text (id : StateId) : id.text.toList = id.label.spelling fun c => c := by
  cases id <;> simp [text, label, Label.spelling, Label.place, Label.spell]

theorem label_injective : Function.Injective label := by
  intro first second same
  cases first <;> cases second <;> simp_all [label, ← String.toList_inj]

theorem text_injective : Function.Injective text := by
  intro first second same
  apply label_injective
  apply Label.spelling_injective _ fun _ _ _ _ alike => alike
  rw [← toList_text, ← toList_text, same]

theorem not_mem_range_text {α β : Type} {first : α → StateId} {second : β → StateId}
    (apart : ∀ one other, first one ≠ second other) :
    ∀ id ∈ Set.range fun one => (first one).text, id ∉ Set.range fun other => (second other).text := by
  rintro id ⟨one, rfl⟩ ⟨other, same⟩
  exact apart one other (text_injective same.symm)

/-- Whatever ids and numbers they are made of, no two state ids are the same text: those of tasks tell
the node, those of starts and of joins the region and the number, and no id of one of these kinds is
one of another kind or ends the machine. -/
theorem texts_apart :
    (Function.Injective fun node => (task node).text) ∧
    (Function.Injective fun place : String × Nat => (batchStart place.1 place.2).text) ∧
    (Function.Injective fun place : String × Nat => (batchJoin place.1 place.2).text) ∧
    [Set.range fun node => (task node).text,
      Set.range fun place : String × Nat => (batchStart place.1 place.2).text,
      Set.range fun place : String × Nat => (batchJoin place.1 place.2).text,
      {Ending.success.id}, {Ending.failure.id}].Pairwise fun kind other => ∀ id ∈ kind, id ∉ other := by
  have ending : ∀ which : Ending, ({which.id} : Set String) = Set.range fun _ : Unit => (final which).text :=
    fun which => Set.range_const.symm
  refine ⟨fun node other same => task.inj (text_injective same), ?_, ?_, ?_⟩
  · intro place other same
    obtain ⟨regions, numbers⟩ := batchStart.inj (text_injective same)
    exact Prod.ext regions numbers
  · intro place other same
    obtain ⟨regions, numbers⟩ := batchJoin.inj (text_injective same)
    exact Prod.ext regions numbers
  · rw [ending, ending]
    simp only [List.pairwise_cons, List.forall_mem_cons, List.not_mem_nil, false_imp_iff, implies_true,
      List.Pairwise.nil, and_true]
    refine ⟨⟨?_, ?_, ?_, ?_⟩, ⟨?_, ?_, ?_⟩, ⟨?_, ?_⟩, ?_⟩
    all_goals
      apply not_mem_range_text
      intro one other same
      cases same

end StateId

end Orchestration
