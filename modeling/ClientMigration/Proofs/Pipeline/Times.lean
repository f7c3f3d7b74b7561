/-
# Proofs.Pipeline.Times -- numbers are ordered as their places are

The adaptive order compares times by their places, which are read off the bits of
a number. A row of bits is a sign, an exponent and digits (`unpack_parts`), and
numbers with one sign are ordered by the exponent first and then by the digits,
as the bits below the sign are (`signed_lt`). So the lesser of two numbers has
the lesser place (`OrderKey.place_lt_place`).
-/
import Mathlib
import ClientMigration.Pipeline.Optimizer

namespace ClientMigration

set_option autoImplicit false

namespace Magnitude

open Float.Model Float.Model.UnpackedFloat

variable {u v : UnpackedFloat} {s t : Sign} {e f m n : Nat}

/-- A number with its sign, its exponent counted from one, and its digits. All exponents but the least
come with the leading digit, zero has no digits, and infinity comes after all others. -/
inductive Parts : UnpackedFloat → Sign → Nat → Nat → Prop
  | zero (s : Sign) : Parts (.zero s) s 1 0
  | finite {s : Sign} {e m : Nat} (digits : 0 < m) (fits : m < 2 ^ 53) (counted : 1 ≤ e)
      (leading : e = 1 ∨ 2 ^ 52 ≤ m) (short : e < 2047) :
      Parts (.finite s m (e - 1075) digits) s e m
  | infinity (s : Sign) : Parts (.infinity s) s 2047 (2 ^ 52)

/-- The bits of a number below the sign. -/
def bits (e m : Nat) : Nat := (e - 1) * 2 ^ 52 + m

/-- The place of a number with a sign and the bits below it. -/
@[simp]
def signed : Sign → Nat → Int
  | .positive, rest => rest
  | .negative, rest => -1 - rest

theorem lex_lt {x y : Int} (less : (compare x y).then (compare m n) = .lt) :
    x < y ∨ x = y ∧ m < n := by
  rcases Ordering.then_eq_lt.mp less with first | ⟨same, second⟩
  · exact Or.inl (Int.compare_eq_lt.mp first)
  · exact Or.inr ⟨Int.compare_eq_eq.mp same, Nat.compare_eq_lt.mp second⟩

theorem lex_gt {x y : Int} (greater : (compare x y).then (compare m n) = .gt) :
    y < x ∨ x = y ∧ n < m := by
  rcases Ordering.then_eq_gt.mp greater with first | ⟨same, second⟩
  · exact Or.inl (Int.compare_eq_gt.mp first)
  · exact Or.inr ⟨Int.compare_eq_eq.mp same, Nat.compare_eq_gt.mp second⟩

theorem signed_lt (parts : Parts u s e m) (parts' : Parts v t f n) (less : u.compare v = some .lt) :
    signed s (bits e m) < signed t (bits f n) := by
  cases parts with
  | finite digits fits counted leading short =>
    cases parts' with
    | finite digits' fits' counted' leading' short' =>
      unfold bits
      cases s <;> cases t <;>
        simp only [UnpackedFloat.compare, Option.some.injEq, Ordering.swap_eq_lt, reduceCtorEq,
          signed] at less ⊢
      · have greater := lex_gt less
        omega
      · omega
      · have lesser := lex_lt less
        omega
    | _ => cases s <;> cases t <;> simp [UnpackedFloat.compare, bits] at less ⊢ <;> omega
  | zero s =>
    cases parts' with
    | zero t => cases less
    | _ => cases s <;> cases t <;> simp [UnpackedFloat.compare, bits] at less ⊢ <;> omega
  | infinity s =>
    cases parts' with
    | infinity t =>
      cases s <;> cases t
      · cases less
      · simp [bits]
      · cases less
      · cases less
    | _ => cases s <;> cases t <;> simp [UnpackedFloat.compare, bits] at less ⊢ <;> omega

/-! ## Bits -/

theorem sign_eq (b : BitVec 64) : Sign.ofBitVec (@unpackSign Format.binary64 b) =
    if b.toNat < 2 ^ 63 then .positive else .negative := by
  have fits := b.isLt
  have top : (@unpackSign Format.binary64 b).toNat = b.toNat / 2 ^ 63 := by
    show b.toNat >>> 63 % 2 = b.toNat / 2 ^ 63
    rw [Nat.shiftRight_eq_div_pow]
    omega
  by_cases small : b.toNat < 2 ^ 63
  · have zero : @unpackSign Format.binary64 b = 0#1 :=
      BitVec.eq_of_toNat_eq (top.trans (Nat.div_eq_of_lt small))
    rw [if_pos small, Sign.ofBitVec, if_pos zero]
  · have one : @unpackSign Format.binary64 b ≠ 0#1 := by
      intro zero
      have zero : b.toNat / 2 ^ 63 = 0 := top.symm.trans (congrArg BitVec.toNat zero)
      omega
    rw [if_neg small, Sign.ofBitVec, if_neg one]

/-- What a row of bits stands for. -/
theorem unpack_parts (b : BitVec 64) :
    UnpackedFloat.unpack Format.binary64 b = .notANumber ∨
      ∃ e m, Parts (UnpackedFloat.unpack Format.binary64 b)
        (if b.toNat < 2 ^ 63 then .positive else .negative) e m ∧ bits e m = b.toNat % 2 ^ 63 := by
  have digits : (@unpackMantissa Format.binary64 b).toNat = b.toNat % 2 ^ 52 := by
    simp [unpackMantissa]
  have exponent : (@unpackExponent Format.binary64 b).toNat = b.toNat / 2 ^ 52 % 2 ^ 11 := by
    simp [unpackExponent, Nat.shiftRight_eq_div_pow]
  have below : b.toNat % 2 ^ 52 < 2 ^ 52 := Nat.mod_lt _ (by decide)
  have above : b.toNat / 2 ^ 52 % 2 ^ 11 < 2 ^ 11 := Nat.mod_lt _ (by decide)
  have leading : (1#1 ++ @unpackMantissa Format.binary64 b).toNat =
      2 ^ 52 + b.toNat % 2 ^ 52 := by
    rw [BitVec.toNat_append, digits]
    exact (Nat.two_pow_add_eq_or_of_lt below 1).symm
  have rest : b.toNat % 2 ^ 63 = b.toNat / 2 ^ 52 % 2 ^ 11 * 2 ^ 52 + b.toNat % 2 ^ 52 := by omega
  rw [rest]
  unfold UnpackedFloat.unpack
  simp only [sign_eq, ← BitVec.toNat_inj, digits, exponent, leading]
  generalize b.toNat / 2 ^ 52 % 2 ^ 11 = e at *
  generalize b.toNat % 2 ^ 52 = m at *
  generalize (if b.toNat < 2 ^ 63 then Sign.positive else Sign.negative) = s at *
  split
  · rename_i last
    have last : e = 2047 := last
    split
    · rename_i blank
      have blank : m = 0 := blank
      exact Or.inr ⟨_, _, .infinity s, by rw [last, blank]; rfl⟩
    · exact Or.inl rfl
  · rename_i notLast
    have notLast : e ≠ 2047 := notLast
    split
    · rename_i first
      have first : e = 0 := first
      subst first
      split
      · rename_i blank
        have blank : m = 0 := blank
        exact Or.inr ⟨_, _, .zero s, by rw [blank]; rfl⟩
      · rename_i digit
        have digit : m ≠ 0 := digit
        refine Or.inr ⟨1, m, ?_, by simp [bits]⟩
        exact .finite _ (by omega) (by omega) (Or.inl rfl) (by omega)
    · rename_i notFirst
      have notFirst : e ≠ 0 := notFirst
      refine Or.inr ⟨e, 2 ^ 52 + m, ?_, by unfold bits; omega⟩
      exact .finite _ (by omega) (by omega) (Or.inr (by omega)) (by omega)

end Magnitude

namespace OrderKey

open Magnitude

theorem place_eq (x : Float) : place x =
    signed (if x.toBits.toNat < 2 ^ 63 then .positive else .negative) (x.toBits.toNat % 2 ^ 63) := by
  have fits : x.toBits.toNat < 2 ^ 64 := x.toBits.toNat_lt
  have cases_eq : place x = if x.toBits.toNat < 0x8000000000000000 then (x.toBits.toNat : Int)
      else 0x7fffffffffffffff - x.toBits.toNat := rfl
  by_cases positive : x.toBits.toNat < 2 ^ 63
  · rw [cases_eq, if_pos (by omega), if_pos positive, Nat.mod_eq_of_lt positive]
    rfl
  · rw [cases_eq, if_neg (by omega), if_neg positive]
    show _ = -1 - ((x.toBits.toNat % 2 ^ 63 : Nat) : Int)
    omega

/-- Of two numbers the lesser has the lesser place. -/
theorem place_lt_place {x y : Float} (less : x < y) : place x < place y := by
  have less : x.toModel.unpack.compare y.toModel.unpack = some .lt := by
    have less : (x.toModel.unpack.compare y.toModel.unpack == some .lt) = true := of_decide_eq_true less
    exact beq_iff_eq.mp less
  rcases unpack_parts x.toBits.toBitVec with none | ⟨e, m, parts, rest⟩
  · rw [Float.Model.unpack, show x.toModel.toBits = x.toBits from rfl, none] at less
    cases less
  · rcases unpack_parts y.toBits.toBitVec with none | ⟨f, n, parts', rest'⟩
    · rw [show y.toModel.unpack = .notANumber from none] at less
      cases found : x.toModel.unpack <;> rw [found] at less <;> cases less
    · have lt := signed_lt parts parts' less
      rw [rest, rest'] at lt
      rw [place_eq, place_eq]
      exact lt

end OrderKey

end ClientMigration
