/-
# Script.Fault -- where a text stops being a module

The token that no reading takes is seldom the one at fault. What is reported is
the beginning of the cheapest change that makes the text read: one token left out
at that place, the token in front or the one that does not fit; else one token
put in; else some tokens in front left out. Where no change of that kind helps,
and at the end of the text, the whole statement is at fault.
-/
import ClientMigration.Script.Grammar.Module

namespace ClientMigration.Script

set_option autoImplicit false

/-- Why a text is no module, and where that shows. -/
structure SyntaxError where
  /-- Bytes before the place. -/
  offset : Nat
  /-- The kind of what is not there; nothing if something stands there that may not. -/
  lacking : Option String
  deriving DecidableEq, Repr

namespace SyntaxError

open Grammar

def isModule (markup : Bool) (source : Text) : Bool := (read markup source).isOk

/-- Where the first statement begins that cannot be read. -/
def firstBroken (markup : Bool) (source : Text) : Nat :=
  let (g, c) := Grammar.start markup source
  match (inOrder [optional hashBang, repeated g.limit (Parser.attempt (g.read .statement))]).run c with
  | .found _ c => c.skip.pos
  | _ => 0

/-- The token at the head of a text: a word, the digits of a number, or a mark alone. -/
def token : Text → Text
  | [] => []
  | c :: t =>
    if isWordStart c then c :: t.takeWhile isWordPart
    else if c.isDigit then c :: t.takeWhile Char.isDigit
    else [c]

/-- The offsets in a text, from `pos` on, at which tokens begin. -/
def tokenStarts (inWord : Bool) (pos : Nat) : Text → List Nat
  | [] => []
  | c :: t =>
    let later := tokenStarts (isWordPart c) (pos + c.utf8Size) t
    if isBlank c || (inWord && isWordPart c) then later else pos :: later

/-- How many tokens in front of the one that does not fit may be left out. -/
def reach : Nat := 16

/-- What may be put in, by its text and its kind. -/
def supplies : List (String × String) :=
  [(")", ")"), ("]", "]"), ("\x7d", "\x7d"), ("x", "identifier")]

/-- The text before `start` and from `stop` on. -/
def without (source : Text) (start stop : Nat) : Text :=
  source.slice 0 start ++ ' ' :: source.slice stop (Text.bytes source)

/-- The place at the end of a text that is read to its end: the statement that is not complete, or the
brace that would complete it. -/
def atEnd (markup : Bool) (source : Text) (far : Nat) : SyntaxError :=
  let start := firstBroken markup source
  let completed := source ++ "\x7d debugger".toList
  if 1 < (tokenStarts false start (source.slice start far)).length && isModule markup completed then
    ⟨far, some "\x7d"⟩
  else ⟨start, none⟩

/-- The place before a token that does not fit, which begins at `pos`. -/
def before (markup : Bool) (source : Text) (far pos : Nat) : SyntaxError :=
  let start := firstBroken markup source
  let fronts := ((tokenStarts false start (source.slice start far)).reverse).take reach
  let size := Text.bytes (token (source.slice pos (Text.bytes source)))
  let leavingOut (u : Nat) : Bool := isModule markup (without source u pos)
  let front? := fronts.head?.filter leavingOut
  let skips := isModule markup (without source pos (pos + size))
  match front?, skips with
  | some u, false => ⟨u, none⟩
  | some u, true => if far - u ≤ size then ⟨u, none⟩ else ⟨pos, none⟩
  | none, true => ⟨pos, none⟩
  | none, false =>
    match supplies.find? fun s =>
      isModule markup (source.slice 0 far ++ ' ' :: s.1.toList ++ source.slice far (Text.bytes source))
    with
    | some s => ⟨far, some s.2⟩
    | none => ⟨(fronts.find? leavingOut).getD start, none⟩

/-- The error of a text that can be read up to `far`. -/
def locate (markup : Bool) (source : Text) (far : Nat) : SyntaxError :=
  let (rest, pos, _) := skipGap .blank far [] (source.slice far (Text.bytes source))
  if rest.isEmpty then atEnd markup source far else before markup source far pos

end SyntaxError

/-- The syntax tree of a module, with embedded markup or without. -/
def parse (markup : Bool) (source : Text) : Except SyntaxError Node :=
  match read markup source with
  | .ok tree => .ok tree
  | .error far => .error (.locate markup source far)

end ClientMigration.Script
