/-
# Proofs.Text.Occurrences -- where a word begins in a text

A text is searched from its front, so the first place found is what follows a part
in which the word does not occur (`occurrences_first`), and there is none exactly if
the word does not occur (`occurrences_eq_nil_iff`). It is found wherever it begins
(`mem_occurrences`). What begins with a character that is not in the word can be
searched apart from what stands in front of it (`occurrences_append`).
-/
import Mathlib.Data.List.Infix
import ClientMigration.Text.Basic

namespace ClientMigration.Text

set_option autoImplicit false

variable {word : String} {a b t u : Text}

theorem startsWith_iff : t.startsWith word = true ↔ word.toList <+: t := List.isPrefixOf_iff_prefix

/-- Whether a word begins a text is not decided by what begins with a character out of the word. -/
theorem startsWith_append (apart : ∀ c ∈ b.head?, c ∉ word.toList) :
    startsWith (a ++ b) word = startsWith a word := by
  rw [Bool.eq_iff_iff, startsWith_iff, startsWith_iff]
  refine ⟨fun begins => ?_, fun begins => begins.trans (List.prefix_append a b)⟩
  rcases List.prefix_or_prefix_of_prefix begins (List.prefix_append a b) with inside | ⟨further, same⟩
  · exact inside
  · rw [← same, List.prefix_append_right_inj] at begins
    cases further with
    | nil => exact ⟨[], by simpa using same.symm⟩
    | cons c further =>
      obtain ⟨rest, rfl⟩ := begins
      exact absurd (by simp [← same]) (apart c rfl)

theorem occurrences_eq_nil_iff (some : word ≠ "") :
    occurrences word t = [] ↔ ¬ word.toList <:+: t := by
  induction t with
  | nil => simp [occurrences, some]
  | cons c t ih =>
    rw [occurrences, List.infix_cons_iff, not_or, ← ih, ← startsWith_iff]
    split <;> simp_all

/-- A word is found wherever it begins. -/
theorem mem_occurrences : u ∈ occurrences word t ↔ u <:+ t ∧ word.toList <+: u := by
  induction t with
  | nil =>
    rw [occurrences, List.suffix_nil]
    constructor
    · intro found
      split at found
      · rename_i empty
        have empty : word = "" := by simpa using empty
        obtain rfl := List.mem_singleton.mp found
        exact ⟨rfl, by simp [empty]⟩
      · cases found
    · rintro ⟨rfl, begins⟩
      have empty : word = "" := by simpa using begins
      rw [if_pos (by simp [empty])]
      exact List.mem_singleton_self []
  | cons c t ih =>
    rw [occurrences, List.suffix_cons_iff, or_and_right, ← ih]
    split
    · rename_i begins
      rw [List.mem_cons]
      refine or_congr_left ⟨?_, And.left⟩
      rintro rfl
      exact ⟨rfl, startsWith_iff.mp begins⟩
    · rename_i further
      refine ⟨Or.inr, fun found => found.resolve_left ?_⟩
      rintro ⟨rfl, begins⟩
      exact further (startsWith_iff.mpr begins)

theorem mentions_iff (some : word ≠ "") : mentions t word = true ↔ word.toList <:+: t := by
  rw [mentions, Bool.not_eq_true', List.isEmpty_eq_false_iff, Ne, occurrences_eq_nil_iff some, not_not]

/-- What the first occurrence follows is free of the word. -/
theorem occurrences_first (some : word ≠ "") {more : List Text}
    (found : occurrences word t = u :: more) :
    ∃ front, t = front ++ u ∧ ¬ word.toList <:+: front ∧ word.toList <+: u := by
  induction t with
  | nil => simp [occurrences, some] at found
  | cons c t ih =>
    rw [occurrences] at found
    split at found
    · rename_i begins
      obtain ⟨rfl, _⟩ := List.cons.inj found
      exact ⟨[], rfl, by simpa using some, startsWith_iff.mp begins⟩
    · rename_i further
      obtain ⟨front, rfl, free, begins⟩ := ih found
      refine ⟨c :: front, rfl, ?_, begins⟩
      rw [List.infix_cons_iff]
      rintro (here | later)
      · exact further (startsWith_iff.mpr (here.trans (List.prefix_append (c :: front) u)))
      · exact free later

/-- No occurrence stretches over a character that is not in the word. -/
theorem occurrences_append (some : word ≠ "") (apart : ∀ c ∈ b.head?, c ∉ word.toList) :
    occurrences word (a ++ b) = (occurrences word a).map (· ++ b) ++ occurrences word b := by
  induction a with
  | nil => simp [occurrences, some]
  | cons c a ih =>
    have same : startsWith (c :: (a ++ b)) word = startsWith (c :: a) word :=
      startsWith_append (a := c :: a) apart
    rw [List.cons_append, occurrences, occurrences, same, ih]
    split <;> simp

end ClientMigration.Text
