/-
# Proofs.Data.StableSort -- lists sorted by a key, ties as they were

A list is sorted stably by a key if it is a permutation with increasing keys in
which entries of one key stand as they stood (`StableSort`). There is exactly one
such list (`stableSort_iff`), so it does not matter how it is computed.

A key that says little more than whether an entry passes a test sorts a list by
moving those that pass to the front (`parted`, `stableSort_parted`).
-/
import Mathlib.Data.List.Permutation
import Mathlib.Order.Basic

namespace ClientMigration

set_option autoImplicit false

section

variable {α β : Type} [LinearOrder β] {key : α → β} {input output other : List α}

/-- `output` is `input` sorted by a key, with entries of one key in their order in `input`. -/
structure StableSort (key : α → β) (input output : List α) : Prop where
  perm : output.Perm input
  sorted : output.Pairwise fun a b => key a ≤ key b
  ties : ∀ k, output.filter (key · = k) = input.filter (key · = k)

/-- Merge sort keeps entries of one key in their order. -/
theorem stableSort_mergeSort {le : α → α → Bool} (le_iff : ∀ a b, le a b = true ↔ key a ≤ key b)
    (input : List α) : StableSort key input (input.mergeSort le) := by
  have trans : ∀ a b c, le a b = true → le b c = true → le a c = true := by
    intro a b c
    simp only [le_iff]
    exact le_trans
  have total : ∀ a b, (le a b || le b a) = true := by
    intro a b
    simp only [Bool.or_eq_true, le_iff]
    exact le_total _ _
  refine ⟨List.mergeSort_perm input le, ?_, fun k => ?_⟩
  · exact (List.pairwise_mergeSort trans total input).imp fun {a b} less => (le_iff a b).mp less
  · have tied : (input.filter (key · = k)).Pairwise fun a b => le a b = true := by
      refine List.pairwise_filter.mpr (List.pairwise_of_forall fun a b here there => ?_)
      rw [le_iff, of_decide_eq_true here, of_decide_eq_true there]
    have kept := (List.sublist_mergeSort trans total tied List.filter_sublist).filter (key · = k)
    rw [List.filter_filter] at kept
    simp only [Bool.and_self] at kept
    exact (kept.eq_of_length ((List.mergeSort_perm input le).filter _).length_eq.symm).symm

theorem mem_iff_of_ties (ties : ∀ k, output.filter (key · = k) = other.filter (key · = k)) (a : α) :
    a ∈ output ↔ a ∈ other := by
  have listed (l : List α) : a ∈ l ↔ a ∈ l.filter (key · = key a) := by simp
  rw [listed output, listed other, ties]

/-- A list in order is told by what it holds of each key. -/
theorem eq_of_ties (sorted : output.Pairwise fun a b => key a ≤ key b)
    (sorted' : other.Pairwise fun a b => key a ≤ key b)
    (ties : ∀ k, output.filter (key · = k) = other.filter (key · = k)) : output = other := by
  induction output generalizing other with
  | nil =>
    refine (List.eq_nil_iff_forall_not_mem.mpr fun a listed => ?_).symm
    exact List.not_mem_nil ((mem_iff_of_ties ties a).mpr listed)
  | cons a output ih =>
    have mem_iff := mem_iff_of_ties ties
    cases other with
    | nil => exact absurd ((mem_iff a).mp List.mem_cons_self) List.not_mem_nil
    | cons b other =>
      obtain ⟨above, below⟩ := List.pairwise_cons.mp sorted
      obtain ⟨above', below'⟩ := List.pairwise_cons.mp sorted'
      have first : key a ≤ key b := by
        rcases List.mem_cons.mp ((mem_iff b).mpr List.mem_cons_self) with rfl | further
        · exact le_refl _
        · exact above b further
      have first' : key b ≤ key a := by
        rcases List.mem_cons.mp ((mem_iff a).mp List.mem_cons_self) with rfl | further
        · exact le_refl _
        · exact above' a further
      have level : key b = key a := le_antisymm first' first
      have heads := ties (key a)
      rw [List.filter_cons_of_pos (by simp), List.filter_cons_of_pos (by simp [level])] at heads
      obtain ⟨same, tails⟩ := List.cons_eq_cons.mp heads
      subst same
      have ties' (k : β) : output.filter (key · = k) = other.filter (key · = k) := by
        by_cases here : key a = k
        · rw [← here]
          exact tails
        · have rest := ties k
          rwa [List.filter_cons_of_neg (by simpa using here),
            List.filter_cons_of_neg (by simpa using here)] at rest
      rw [ih below below' ties']

theorem stableSort_iff {le : α → α → Bool} (le_iff : ∀ a b, le a b = true ↔ key a ≤ key b)
    (input output : List α) : StableSort key input output ↔ output = input.mergeSort le := by
  have merged := stableSort_mergeSort le_iff input
  constructor
  · intro sort
    exact eq_of_ties sort.sorted merged.sorted fun k => (sort.ties k).trans (merged.ties k).symm
  · rintro rfl
    exact merged

/-- Where entries of one key are the same, it does not matter how the input was listed. -/
theorem StableSort.eq_of_distinct {output' input' : List α} (sort : StableSort key input output)
    (sort' : StableSort key input' output') (perm : input.Perm input')
    (distinct : ∀ a ∈ input', ∀ b ∈ input', key a = key b → a = b) : output = output' := by
  refine List.Perm.eq_of_pairwise (fun a b here there le ge => ?_) sort.sorted sort'.sorted
    ((sort.perm.trans perm).trans sort'.perm.symm)
  exact distinct a ((sort.perm.trans perm).mem_iff.mp here) b (sort'.perm.mem_iff.mp there)
    (le_antisymm le ge)

/-! ## Lists in two parts -/

variable {front : α → Bool} {l : List α}

/-- The entries that pass a test, and behind them the rest, each in the order they had. -/
def parted (front : α → Bool) (l : List α) : List α := l.filter front ++ l.filter (!front ·)

theorem parted_perm (front : α → Bool) (l : List α) : (parted front l).Perm l :=
  List.filter_append_perm front l

theorem filter_parted (front test : α → Bool) (l : List α) :
    (parted front l).filter test = parted front (l.filter test) := by
  simp only [parted, List.filter_append, List.filter_filter, Bool.and_comm]

/-- Nothing is moved if none of the rest stands in front of an entry that passes. -/
theorem parted_eq_iff : parted front l = l ↔ l.Pairwise fun a b => front b → front a := by
  constructor
  · intro same
    rw [← same]
    refine List.pairwise_append.mpr ⟨?_, ?_, fun a here b there => ?_⟩
    · exact List.pairwise_filter.mpr (List.pairwise_of_forall fun a b passes _ _ => passes)
    · refine List.pairwise_filter.mpr (List.pairwise_of_forall fun a b _ fails passes => ?_)
      simp [passes] at fails
    · exact fun _ => (List.mem_filter.mp here).2
  · intro ordered
    induction l with
    | nil => rfl
    | cons a l ih =>
      obtain ⟨first, rest⟩ := List.pairwise_cons.mp ordered
      by_cases passes : front a = true
      · rw [parted, List.filter_cons_of_pos passes, List.filter_cons_of_neg (by simpa using passes)]
        exact congrArg (a :: ·) (ih rest)
      · have none : l.filter front = [] := List.filter_eq_nil_iff.mpr fun b listed => mt (first b listed) passes
        have all : l.filter (!front ·) = l := List.filter_eq_self.mpr fun b listed => by
          simpa using mt (first b listed) passes
        rw [parted, List.filter_cons_of_neg passes, List.filter_cons_of_pos (by simpa using passes), none, all]
        rfl

/-- Parting a list sorts it stably by a key that tells the two parts apart and that increases in each. -/
theorem stableSort_parted (across : ∀ a ∈ l, ∀ b ∈ l, front a → ¬ front b → key a < key b)
    (within : l.Pairwise fun a b => front a = front b → key a ≤ key b) :
    StableSort key l (parted front l) := by
  refine ⟨parted_perm front l, ?_, fun k => ?_⟩
  · refine List.pairwise_append.mpr ⟨?_, ?_, fun a here b there => ?_⟩
    · exact List.pairwise_filter.mpr (within.imp fun le a_passes b_passes => le (a_passes.trans b_passes.symm))
    · refine List.pairwise_filter.mpr (within.imp fun le a_fails b_fails => le ?_)
      simp only [Bool.not_eq_true'] at a_fails b_fails
      exact a_fails.trans b_fails.symm
    · obtain ⟨a_listed, a_passes⟩ := List.mem_filter.mp here
      obtain ⟨b_listed, b_fails⟩ := List.mem_filter.mp there
      exact (across a a_listed b b_listed a_passes (by simpa using b_fails)).le
  · rw [filter_parted, parted_eq_iff]
    refine List.pairwise_of_forall_mem_list fun a here b there b_passes => ?_
    by_contra a_fails
    obtain ⟨a_listed, a_key⟩ := List.mem_filter.mp here
    obtain ⟨b_listed, b_key⟩ := List.mem_filter.mp there
    have apart := across b b_listed a a_listed b_passes a_fails
    rw [of_decide_eq_true a_key, of_decide_eq_true b_key] at apart
    exact lt_irrefl k apart

end

end ClientMigration
