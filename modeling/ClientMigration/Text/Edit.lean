/-
# Text.Edit -- replacing pieces of a text

An edit replaces the bytes from `start` up to `stop`. A list of edits is applied
to the text as it was before any of them, in the order of their places; edits at
one place keep their order. Two edits that overlap are refused, and so is one
whose ends are not between two characters of the text.
-/
import ClientMigration.Text.Basic

namespace ClientMigration

set_option autoImplicit false

structure Edit where
  start : Nat
  stop : Nat
  text : Text
  deriving DecidableEq, Repr

namespace Edit

/-- Puts `text` in at an offset. -/
def insert (offset : Nat) (text : Text) : Edit := ⟨offset, offset, text⟩

/-- Takes out what stands between two offsets. -/
def delete (start stop : Nat) : Edit := ⟨start, stop, []⟩

inductive Error where
  /-- The edit at this offset begins before the one in front of it ends. -/
  | overlap (offset : Nat)
  /-- An edit has an end outside the text or inside a character. -/
  | outside
  deriving DecidableEq, Repr

/-- Whether one edit may stand in front of another. -/
def before (a b : Edit) : Bool := a.start < b.start || (a.start == b.start && a.stop ≤ b.stop)

/-- Applies edits that are in order to what follows `cursor`. -/
def applyFrom (source : Text) : Nat → List Edit → Except Error Text
  | cursor, [] =>
    match source.dropBytes? cursor with
    | some rest => .ok rest
    | none => .error .outside
  | cursor, e :: es =>
    if e.start < cursor then .error (.overlap e.start)
    else
      match source.slice? cursor e.start with
      | none => .error .outside
      | some kept => (applyFrom source e.stop es).map fun rest => kept ++ e.text ++ rest

/-- An edit among edits that are in order, in front of those it may stand in front of. -/
def putIn (e : Edit) : List Edit → List Edit
  | [] => [e]
  | f :: fs => if before e f then e :: f :: fs else f :: putIn e fs

/-- The edits in the order of their places; those at one place stay as they are. -/
def inOrder (edits : List Edit) : List Edit := edits.foldr putIn []

/-- The text with all edits made at once. -/
def apply (source : Text) (edits : List Edit) : Except Error Text :=
  applyFrom source 0 (inOrder edits)

end Edit

namespace Text

/-- What follows the last line feed. -/
def lastLine (t : Text) : Text := (t.reverse.takeWhile (· != '\n')).reverse

/-- The blanks and tabs at the beginning of the line in which an offset lies. -/
def indent? (source : Text) (offset : Nat) : Option Text :=
  (source.takeBytes? offset).bind fun front =>
    (source.dropBytes? (offset - bytes (lastLine front))).map fun line =>
      line.takeWhile fun c => c == ' ' || c == '\t'

def indent (source : Text) (offset : Nat) : Text := (indent? source offset).getD []

end Text

end ClientMigration
