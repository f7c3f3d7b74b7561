/-
# Codemod.VersionPrefix -- `/api/v1` at the head of a path

A unified client adds the version itself, so literal paths lose theirs. All
versions at the head of a path go, as long as each is followed by a slash, by
the end of the path, or by its query or fragment.
-/
import ClientMigration.Text.Basic

namespace ClientMigration.Codemod

set_option autoImplicit false

/-- What follows `/api/v` and its digits at the head of a text. -/
def versionTail? (t : Text) : Option Text :=
  (t.after? "/api/v").bind fun r =>
    let digits := r.takeWhile Char.isDigit
    if digits.isEmpty then none else some (r.drop digits.length)

/-- How many bytes the version at the head of a text takes. -/
def versionLength? (t : Text) : Option Nat :=
  (versionTail? t).map fun tail => t.bytes - tail.bytes

/-- `stripVersions?` for a text with at most `fuel` versions; `changed` tells that one has gone. -/
def stripFrom : Nat → Bool → Text → Option Text
  | 0, changed, t => if changed then some t else none
  | fuel + 1, changed, t =>
    match versionTail? t with
    | none => if changed then some t else none
    | some [] => some ['/']
    | some (c :: tail) =>
      if c == '/' then stripFrom fuel true (c :: tail)
      else if c == '?' || c == '#' then some ('/' :: c :: tail)
      else if changed then some t else none

/-- The path without the versions at its head; none if it stays as it is. -/
def stripVersions? (t : Text) : Option Text := stripFrom (t.length + 1) false t

end ClientMigration.Codemod
