/-
# Proofs.Data.Number -- finite numbers are in one order

Numbers that are no numbers compare with nothing, so the order of all numbers is
no linear one. The finite numbers have a sign, an exponent and digits, and compare
as these do, one after the other (`compares_rank`). So among them one of two is
always the lesser (`le_of_not_lt`), and the lesser of the lesser is the least
(`le_trans`). The two zeros are equal and not the same.
-/
import Mathlib.Data.Int.Order.Basic
import Mathlib.Data.Prod.Lex
import Mathlib.Order.Compare

namespace ClientMigration.Number

set_option autoImplicit false

open Float.Model Float.Model.UnpackedFloat

/-! ## Signs, exponents and digits -/

/-- A finite number as a tuple in the lexicographic order. -/
def rankOf : UnpackedFloat → ℤ ×ₗ ℤ ×ₗ ℤ
  | .finite .negative m e _ => toLex (-1, toLex (-e, -m))
  | .finite .positive m e _ => toLex (1, toLex (e, m))
  | _ => toLex (0, toLex (0, 0))

/-- Exponents are compared first, and then digits. -/
theorem digits_cases (e f : ℤ) (m n : ℕ) :
    (compare e f).then (compare m n) = .lt ∧ (e < f ∨ e = f ∧ m < n) ∨
    (compare e f).then (compare m n) = .eq ∧ e = f ∧ m = n ∨
    (compare e f).then (compare m n) = .gt ∧ (f < e ∨ f = e ∧ n < m) := by
  simp only [Ordering.then_eq_lt, Ordering.then_eq_eq, Ordering.then_eq_gt, Int.compare_eq_lt,
    Int.compare_eq_eq, Int.compare_eq_gt, Nat.compare_eq_lt, Nat.compare_eq_eq, Nat.compare_eq_gt]
  omega

theorem compares_digits (i e f : ℤ) (m n : ℕ) :
    ((compare e f).then (compare m n)).Compares (toLex (i, toLex (e, (m : ℤ))))
      (toLex (i, toLex (f, (n : ℤ)))) := by
  rcases digits_cases e f m n with ⟨told, less⟩ | ⟨told, rfl, rfl⟩ | ⟨told, more⟩
  · rw [told]
    simp [Ordering.Compares, Prod.Lex.toLex_lt_toLex, less]
  · rw [told]
    rfl
  · rw [told]
    simp [Ordering.Compares, Prod.Lex.toLex_lt_toLex, more]

/-- Of two numbers below zero the one with the greater digits is the lesser. -/
theorem compares_digits_swap (i e f : ℤ) (m n : ℕ) :
    ((compare e f).then (compare m n)).swap.Compares (toLex (i, toLex (-e, -(m : ℤ))))
      (toLex (i, toLex (-f, -(n : ℤ)))) := by
  rcases digits_cases e f m n with ⟨told, less⟩ | ⟨told, rfl, rfl⟩ | ⟨told, more⟩
  · rw [told]
    simp only [Ordering.swap_lt, Ordering.Compares, gt_iff_lt, Prod.Lex.toLex_lt_toLex,
      lt_self_iff_false, false_or, true_and]
    omega
  · rw [told]
    rfl
  · rw [told]
    simp only [Ordering.swap_gt, Ordering.Compares, Prod.Lex.toLex_lt_toLex, lt_self_iff_false, false_or,
      true_and]
    omega

theorem compares_same_sign (s : Sign) {e f : ℤ} {m n : ℕ} (digits : 0 < m) (digits' : 0 < n) :
    ∃ o, (finite s m e digits).compare (finite s n f digits') = some o ∧
      o.Compares (rankOf (.finite s m e digits)) (rankOf (.finite s n f digits')) := by
  cases s with
  | positive => exact ⟨_, rfl, compares_digits 1 e f m n⟩
  | negative => exact ⟨_, rfl, compares_digits_swap (-1) e f m n⟩

theorem compares_rankOf {u v : UnpackedFloat} (finite : u.isFinite = true) (finite' : v.isFinite = true) :
    ∃ o, u.compare v = some o ∧ o.Compares (rankOf u) (rankOf v) := by
  have bySign {i j : ℤ} {a b : ℤ ×ₗ ℤ} (less : i < j) : toLex (i, a) < toLex (j, b) :=
    Prod.Lex.toLex_lt_toLex.mpr (Or.inl less)
  cases u with
  | notANumber => cases finite
  | infinity s => cases finite
  | zero s =>
    cases v with
    | notANumber => cases finite'
    | infinity t => cases finite'
    | zero t => exact ⟨.eq, rfl, rfl⟩
    | finite t n f digits =>
      cases t with
      | negative => exact ⟨.gt, rfl, bySign (by decide)⟩
      | positive => exact ⟨.lt, rfl, bySign (by decide)⟩
  | finite s m e digits =>
    cases v with
    | notANumber => cases finite'
    | infinity t => cases finite'
    | zero t =>
      cases s with
      | negative => exact ⟨.lt, rfl, bySign (by decide)⟩
      | positive => exact ⟨.gt, rfl, bySign (by decide)⟩
    | finite t n f digits' =>
      cases s <;> cases t
      · exact compares_same_sign .negative digits digits'
      · exact ⟨.lt, rfl, bySign (by decide)⟩
      · exact ⟨.gt, rfl, bySign (by decide)⟩
      · exact compares_same_sign .positive digits digits'

/-! ## The order of finite numbers -/

/-- Where a finite number stands among the others. -/
def rank (x : Float) : ℤ ×ₗ ℤ ×ₗ ℤ := rankOf x.toModel.unpack

variable {x y z : Float}

theorem compares_rank (finite : x.isFinite = true) (finite' : y.isFinite = true) :
    ∃ o, x.toModel.unpack.compare y.toModel.unpack = some o ∧ o.Compares (rank x) (rank y) :=
  compares_rankOf finite finite'

theorem lt_iff_rank (finite : x.isFinite = true) (finite' : y.isFinite = true) :
    x < y ↔ rank x < rank y := by
  obtain ⟨o, told, compares⟩ := compares_rank finite finite'
  have model : x < y ↔ (x.toModel.unpack.compare y.toModel.unpack == some .lt) = true :=
    decide_eq_true_iff
  rw [model, told, beq_iff_eq, Option.some.injEq]
  exact compares.eq_lt

theorem le_iff_rank (finite : x.isFinite = true) (finite' : y.isFinite = true) :
    x ≤ y ↔ rank x ≤ rank y := by
  obtain ⟨o, told, compares⟩ := compares_rank finite finite'
  have model : x ≤ y ↔ (x.toModel.unpack.compare y.toModel.unpack).any (·.isLE) = true :=
    decide_eq_true_iff
  rw [model, told, Option.any_some, Ordering.isLE_iff_ne_gt]
  exact compares.ne_gt

theorem beq_iff_rank (finite : x.isFinite = true) (finite' : y.isFinite = true) :
    (x == y) = true ↔ rank x = rank y := by
  obtain ⟨o, told, compares⟩ := compares_rank finite finite'
  have model : (x == y) = (x.toModel.unpack.compare y.toModel.unpack == some .eq) := rfl
  rw [model, told, beq_iff_eq, Option.some.injEq]
  exact compares.eq_eq

theorem le_refl (finite : x.isFinite = true) : x ≤ x :=
  (le_iff_rank finite finite).mpr (Preorder.le_refl _)

theorem le_of_not_lt (finite : x.isFinite = true) (finite' : y.isFinite = true) (not_less : ¬ y < x) :
    x ≤ y := by
  rw [lt_iff_rank finite' finite, not_lt] at not_less
  exact (le_iff_rank finite finite').mpr not_less

theorem le_of_lt (finite : x.isFinite = true) (finite' : y.isFinite = true) (less : x < y) : x ≤ y :=
  (le_iff_rank finite finite').mpr ((lt_iff_rank finite finite').mp less).le

theorem le_trans (finite : x.isFinite = true) (finite' : y.isFinite = true) (finite'' : z.isFinite = true)
    (first : x ≤ y) (second : y ≤ z) : x ≤ z := by
  rw [le_iff_rank finite finite'] at first
  rw [le_iff_rank finite' finite''] at second
  exact (le_iff_rank finite finite'').mpr (first.trans second)

end ClientMigration.Number
