/-
# Text.Blank -- white space

The characters with the Unicode property White_Space, and texts without them at
their ends.
-/
import ClientMigration.Text.Basic

namespace ClientMigration.Text

set_option autoImplicit false

def isBlank (c : Char) : Bool :=
  let n := c.toNat
  (9 ≤ n && n ≤ 13) || n == 0x20 || n == 0x85 || n == 0xA0 || n == 0x1680 ||
    (0x2000 ≤ n && n ≤ 0x200A) || n == 0x2028 || n == 0x2029 || n == 0x202F || n == 0x205F ||
    n == 0x3000

def trimLeft (t : Text) : Text := t.dropWhile isBlank

def trimRight (t : Text) : Text := (t.reverse.dropWhile isBlank).reverse

/-- Without white space at either end. -/
def trim (t : Text) : Text := trimRight (trimLeft t)

/-- Upper case for the letters of ASCII; other characters stay. -/
def capitalized (t : Text) : Text := t.map Char.toUpper

/-- Lower case for the letters of ASCII; other characters stay. -/
def lowered (t : Text) : Text := t.map Char.toLower

end ClientMigration.Text
