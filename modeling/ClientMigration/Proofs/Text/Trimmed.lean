/-
# Proofs.Text.Trimmed -- texts without white space at their ends

A text is white space, a part with none at its ends, and white space again. That
part is what trimming leaves, and no other part is like it (`trim_eq_iff`).
-/
import Mathlib.Data.List.TakeWhile
import ClientMigration.Text.Blank

namespace ClientMigration.Text

set_option autoImplicit false

/-- White space and nothing else. -/
def Blank (t : Text) : Prop := ∀ c ∈ t, isBlank c = true

/-- No white space at either end. -/
structure Trimmed (t : Text) : Prop where
  first : ∀ c ∈ t.head?, isBlank c = false
  last : ∀ c ∈ t.getLast?, isBlank c = false

theorem trimmed_iff {t : Text} :
    Trimmed t ↔ t.head?.any isBlank = false ∧ t.getLast?.any isBlank = false := by
  rw [Option.any_eq_false, Option.any_eq_false]
  exact ⟨fun ⟨first, last⟩ => ⟨first, last⟩, fun ⟨first, last⟩ => ⟨first, last⟩⟩

instance : DecidablePred Trimmed := fun _ => decidable_of_iff' _ trimmed_iff

variable {t u front back : Text}

/-! ## One end -/

/-- A front of one kind is dropped, down to the first character of another kind. -/
theorem dropWhile_front {kind : Char → Bool} (all : ∀ c ∈ front, kind c = true)
    (first : ∀ c ∈ t.head?, kind c = false) : (front ++ t).dropWhile kind = t := by
  rw [List.dropWhile_append_of_pos all]
  cases t with
  | nil => rfl
  | cons c t => exact List.dropWhile_cons_of_neg (by simp [first c rfl])

theorem trimLeft_of_first (first : ∀ c ∈ t.head?, isBlank c = false) : trimLeft t = t :=
  @dropWhile_front t [] isBlank nofun first

theorem first_trimLeft (t : Text) : ∀ c ∈ (trimLeft t).head?, isBlank c = false := by
  intro c isFirst
  have none := List.head?_dropWhile_not isBlank t
  rwa [show (t.dropWhile isBlank).head? = some c from isFirst] at none

theorem exists_trimLeft (t : Text) : ∃ front, Blank front ∧ t = front ++ trimLeft t :=
  ⟨t.takeWhile isBlank, fun _ => List.mem_takeWhile_imp, List.takeWhile_append_dropWhile.symm⟩

theorem trimRight_eq (t : Text) : trimRight t = (trimLeft t.reverse).reverse := rfl

theorem trimRight_of_last (last : ∀ c ∈ t.getLast?, isBlank c = false) : trimRight t = t := by
  rw [trimRight_eq, trimLeft_of_first (by rwa [List.head?_reverse]), List.reverse_reverse]

theorem exists_trimRight (t : Text) : ∃ back, Blank back ∧ t = trimRight t ++ back := by
  obtain ⟨front, blank, whole⟩ := exists_trimLeft t.reverse
  refine ⟨front.reverse, fun c listed => blank c (List.mem_reverse.mp listed), ?_⟩
  rw [trimRight_eq, ← List.reverse_append, ← whole, List.reverse_reverse]

/-! ## Both ends -/

/-- Nothing but white space is taken off. -/
theorem exists_trim (t : Text) :
    ∃ front back, Blank front ∧ Blank back ∧ t = front ++ trim t ++ back := by
  obtain ⟨front, blankFront, left⟩ := exists_trimLeft t
  obtain ⟨back, blankBack, right⟩ := exists_trimRight (trimLeft t)
  exact ⟨front, back, blankFront, blankBack, by rw [trim, List.append_assoc, ← right, ← left]⟩

theorem trimmed_trim (t : Text) : Trimmed (trim t) where
  first := by
    intro c isFirst
    obtain ⟨back, _, right⟩ := exists_trimRight (trimLeft t)
    refine first_trimLeft t c ?_
    rw [right, List.head?_append, show (trimRight (trimLeft t)).head? = some c from isFirst]
    rfl
  last := by
    intro c isLast
    rw [trim, trimRight_eq, List.getLast?_reverse] at isLast
    exact first_trimLeft _ c isLast

theorem Trimmed.trim_append (trimmed : Trimmed t) (blankFront : Blank front) (blankBack : Blank back) :
    trim (front ++ t ++ back) = t := by
  have left : trimLeft (front ++ t ++ back) = trimLeft (t ++ back) := by
    rw [List.append_assoc]
    exact List.dropWhile_append_of_pos blankFront
  have right : trimRight (t ++ back) = trimRight t := by
    rw [trimRight_eq, trimRight_eq, List.reverse_append]
    exact congrArg List.reverse
      (List.dropWhile_append_of_pos fun c listed => blankBack c (List.mem_reverse.mp listed))
  cases t with
  | nil =>
    rw [trim, left, List.nil_append, show trimLeft back = [] from List.dropWhile_eq_nil_iff.mpr blankBack]
    rfl
  | cons c t =>
    rw [trim, left, trimLeft_of_first (by simpa using trimmed.first c rfl), right,
      trimRight_of_last trimmed.last]

theorem trim_eq_iff :
    trim t = u ↔ Trimmed u ∧ ∃ front back, Blank front ∧ Blank back ∧ t = front ++ u ++ back := by
  constructor
  · rintro rfl
    exact ⟨trimmed_trim t, exists_trim t⟩
  · rintro ⟨trimmed, front, back, blankFront, blankBack, rfl⟩
    exact trimmed.trim_append blankFront blankBack

theorem Trimmed.trim_eq (trimmed : Trimmed t) : trim t = t :=
  trim_eq_iff.mpr ⟨trimmed, [], [], List.forall_mem_nil _, List.forall_mem_nil _, by simp⟩

theorem trim_eq_nil_iff : trim t = [] ↔ Blank t := by
  constructor
  · intro none
    obtain ⟨front, back, blankFront, blankBack, whole⟩ := exists_trim t
    rw [none, List.append_nil] at whole
    rw [whole]
    exact List.forall_mem_append.mpr ⟨blankFront, blankBack⟩
  · intro blank
    exact trim_eq_iff.mpr ⟨⟨nofun, nofun⟩, t, [], blank, List.forall_mem_nil _, by simp⟩

/-- What a text trimmed has in it, the text has. -/
theorem mem_of_mem_trim {c : Char} (listed : c ∈ trim t) : c ∈ t := by
  obtain ⟨front, back, _, _, whole⟩ := exists_trim t
  rw [whole]
  exact List.mem_append_left _ (List.mem_append_right _ listed)

end ClientMigration.Text
