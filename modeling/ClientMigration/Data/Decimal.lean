/-
# Data.Decimal -- floating-point numbers in decimal notation

A finite floating-point number is a whole number times a power of two, so its
decimal places are found exactly: the number is scaled to a quotient of whole
numbers and rounded once, a tie going to the even neighbour.
-/
import ClientMigration.Text.Basic

namespace ClientMigration

set_option autoImplicit false

/-- The finite number `± digits · 2 ^ exponent`. -/
structure Dyadic where
  negative : Bool
  digits : Nat
  exponent : Int
  deriving DecidableEq, Repr

namespace Dyadic

/-- The parts of a number in the 64-bit format; none for infinities and what is no number. -/
def ofFloat? (x : Float) : Option Dyadic :=
  let negative : Bool := x.toBits >>> 63 == 1
  let exponent : Nat := (x.toBits >>> 52 &&& 0x7ff).toNat
  let fraction : Nat := (x.toBits &&& 0xfffffffffffff).toNat
  if exponent == 2047 then none
  else if exponent == 0 then some ⟨negative, fraction, -1074⟩
  else some ⟨negative, fraction + 0x10000000000000, (exponent : Int) - 1075⟩

/-- The nearest whole number to a quotient, the even one of two. -/
def roundDiv (num den : Nat) : Nat :=
  let q := num / den
  let r := num % den
  if 2 * r < den then q
  else if den < 2 * r then q + 1
  else if q % 2 == 0 then q
  else q + 1

/-- The nearest whole number to the size of `x · 10 ^ places`. -/
def scaled (places : Nat) (x : Dyadic) : Nat :=
  match x.exponent with
  | .ofNat e => x.digits * Nat.pow 10 places * Nat.pow 2 e
  | .negSucc e => roundDiv (x.digits * Nat.pow 10 places) (Nat.pow 2 (e + 1))

end Dyadic

namespace Decimal

/-- The text with `c` in front until it has `width` characters. -/
def padLeft (width : Nat) (c : Char) (t : Text) : Text := List.replicate (width - t.length) c ++ t

/-- The text with blanks behind it until it has `width` characters. -/
def padRight (width : Nat) (t : Text) : Text := t ++ List.replicate (width - t.length) ' '

/-- A whole number written with a point in front of its last `places` digits. -/
def pointed (places n : Nat) : Text :=
  let digits := padLeft (places + 1) '0' (toString n).toList
  let front := digits.take (digits.length - places)
  if places == 0 then front else front ++ '.' :: digits.drop (digits.length - places)

/-- A number with a fixed count of decimal places. -/
def fixed (places : Nat) (x : Float) : Text :=
  match Dyadic.ofFloat? x with
  | some d => (if d.negative then ['-'] else []) ++ pointed places (d.scaled places)
  | none => if x.isNaN then "NaN".toList else if x < 0.0 then "-inf".toList else "inf".toList

/-- `fixed` with a sign in front also of what is not negative. -/
def signed (places : Nat) (x : Float) : Text :=
  match fixed places x with
  | '-' :: t => '-' :: t
  | t => if x.isNaN then t else '+' :: t

end Decimal

end ClientMigration
