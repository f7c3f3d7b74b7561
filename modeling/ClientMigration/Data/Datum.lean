/-
# Data.Datum -- values of data files

What a data file holds, whatever its notation: truth values, numbers, texts,
lists and records. A record keeps its entries in the order in which they were
written, and keeps an entry that is written twice.
-/
import ClientMigration.Data.Decimal

namespace ClientMigration

set_option autoImplicit false

inductive Datum where
  | null
  | boolean (value : Bool)
  /-- A number written without point and exponent. -/
  | whole (value : Int)
  /-- Any other number: the digits times ten to the exponent. -/
  | fraction (negative : Bool) (digits : Nat) (exponent : Int)
  | text (value : String)
  | list (items : List Datum)
  | record (entries : List (String × Datum))
  /-- What no setting takes: a date, an infinity, a string that is no text. -/
  | foreign
  deriving Repr

namespace Datum

/-- The values written under a name. -/
def under (entries : List (String × Datum)) (name : String) : List Datum :=
  (entries.filter (·.1 == name)).map Prod.snd

/-- The last value written under a name. -/
def get? (d : Datum) (name : String) : Option Datum :=
  match d with
  | .record entries => (under entries name).getLast?
  | _ => none

/-- The number nearest to `digits · 10 ^ exponent`. Exponents far beyond the range of the format are
cut short, since the result is zero or infinite all the same. -/
def nearestFloat (negative : Bool) (digits : Nat) (exponent : Int) : Float :=
  let size : Int := (Nat.toDigits 10 digits).length
  let x : Float :=
    if digits == 0 || exponent + size < -400 then 0.0
    else if exponent + size > 400 then 1.0 / 0.0
    else if exponent < 0 then Float.ofScientific digits true exponent.natAbs
    else Float.ofScientific digits false exponent.natAbs
  if negative then -x else x

/-- A number that the floating-point format can hold. -/
def float? : Datum → Option Float
  | .whole n => finite (nearestFloat (n < 0) n.natAbs 0)
  | .fraction negative digits exponent => finite (nearestFloat negative digits exponent)
  | _ => none
where
  finite (x : Float) : Option Float := if x.isFinite then some x else none

/-- The exact decimal form of a number: `m · 2 ^ -k` is `m · 5 ^ k · 10 ^ -k`. -/
def ofFloat (x : Float) : Datum :=
  match Dyadic.ofFloat? x with
  | none => .foreign
  | some ⟨negative, digits, .ofNat e⟩ => .fraction negative (digits * Nat.pow 2 e) 0
  | some ⟨negative, digits, .negSucc e⟩ => .fraction negative (digits * Nat.pow 5 (e + 1)) (.negSucc e)

mutual

/-- The same value with the entries of every record in the order of their names. -/
def sorted : Datum → Datum
  | .list items => .list (sortedItems items)
  | .record entries => .record ((sortedEntries entries).mergeSort fun a b => a.1 ≤ b.1)
  | .null => .null
  | .boolean b => .boolean b
  | .whole n => .whole n
  | .fraction s d e => .fraction s d e
  | .text s => .text s
  | .foreign => .foreign

def sortedItems : List Datum → List Datum
  | [] => []
  | d :: ds => sorted d :: sortedItems ds

def sortedEntries : List (String × Datum) → List (String × Datum)
  | [] => []
  | (name, d) :: es => (name, sorted d) :: sortedEntries es

end

/-- Whether a number has room in 64 bits with its sign. -/
def fitsWord (n : Int) : Bool := -0x8000000000000000 ≤ n && n < 0x8000000000000000

/-- A list of texts. -/
def texts (xs : List String) : Datum := .list (xs.map .text)

end Datum

end ClientMigration
