/-
# Text.Quoted -- texts between quotes for developers

Quotes, backslashes and what does not show on its own are written with a backslash
in front.
-/
import ClientMigration.Text.Basic
import ClientMigration.Text.Unprintable

namespace ClientMigration.Text

set_option autoImplicit false

def quotedCharacter (c : Char) : Text :=
  if c == '"' then ['\\', '"']
  else if c == '\\' then ['\\', '\\']
  else if c == '\n' then ['\\', 'n']
  else if c == '\r' then ['\\', 'r']
  else if c == '\t' then ['\\', 't']
  else if c == '\x00' then ['\\', '0']
  else if isUnprintable c then '\\' :: 'u' :: '\x7b' :: Nat.toDigits 16 c.toNat ++ ['\x7d']
  else [c]

def quoted (t : Text) : Text := '"' :: t.flatMap quotedCharacter ++ ['"']

end ClientMigration.Text
