/-
# Script.Grammar.Literal -- numbers, strings and regular expressions

Each literal is one leaf. What stands at the head of a text is split off by a
function on characters; `none` or an empty first part says that no such literal
stands there.
-/
import ClientMigration.Script.Grammar.Reader

namespace ClientMigration.Script.Grammar

set_option autoImplicit false

open Grammar.Parser

/-! ## Numbers -/

/-- The digits that go on behind a digit, each perhaps after an underscore. -/
def moreDigits (isDigit : Char → Bool) : Text → Text
  | '_' :: c :: t => if isDigit c then '_' :: c :: moreDigits isDigit t else []
  | c :: t => if isDigit c then c :: moreDigits isDigit t else []
  | [] => []

def digitRun (isDigit : Char → Bool) : Text → Text
  | c :: t => if isDigit c then c :: moreDigits isDigit t else []
  | [] => []

/-- An exponent with its sign, empty if there is none. -/
def exponent : Text → Text
  | e :: s :: t =>
    if e == 'e' || e == 'E' then
      if s == '+' || s == '-' then
        match digitRun Char.isDigit t with
        | [] => []
        | ds => e :: s :: ds
      else
        match digitRun Char.isDigit (s :: t) with
        | [] => []
        | ds => e :: ds
    else []
  | _ => []

/-- A numeral in another base than ten, after its leading zero. -/
def basedDigits (t : Text) : Text :=
  match t with
  | x :: r =>
    let ds :=
      if x == 'x' || x == 'X' then digitRun isHexDigit r
      else if x == 'o' || x == 'O' then digitRun (fun c => '0' ≤ c && c ≤ '7') r
      else if x == 'b' || x == 'B' then digitRun (fun c => c == '0' || c == '1') r
      else []
    if ds.isEmpty then [] else x :: ds
  | [] => []

/-- The numeral at the head of a text, empty if there is none. -/
def numeral (t : Text) : Text :=
  let whole := digitRun Char.isDigit t
  let based := if t.head? == some '0' then basedDigits (t.drop 1) else []
  let body :=
    if !based.isEmpty then '0' :: based
    else
      let r := t.drop whole.length
      let fraction :=
        match r with
        | '.' :: r' =>
          let ds := digitRun Char.isDigit r'
          if whole.isEmpty && ds.isEmpty then [] else '.' :: ds
        | _ => []
      if whole.isEmpty && fraction.isEmpty then []
      else whole ++ fraction ++ exponent (r.drop fraction.length)
  if !body.isEmpty && (t.drop body.length).head? == some 'n' then body ++ ['n'] else body

def number : Parser Node := do
  let c ← skipped
  let taken := numeral c.rest
  if taken.isEmpty then absent else leaf .number taken (c.rest.drop taken.length)

/-! ## Strings -/

/-- How many characters after a backslash belong to its escape; zero for a malformed one. -/
def escapeLength : Text → Nat
  | [] => 0
  | 'x' :: a :: b :: _ => if isHexDigit a && isHexDigit b then 3 else 0
  | 'x' :: _ => 0
  | 'u' :: t => codePointLength ('\\' :: 'u' :: t) - 1
  | '\r' :: '\n' :: _ => 2
  | _ :: _ => 1

/-- The rest of a string behind its opening quote, closing quote included. -/
def quotedRest (quote : Char) : Nat → Text → Option (Text × Text)
  | _, [] => none
  | n + 1, c :: t => (quotedRest quote n t).map fun (w, r) => (c :: w, r)
  | 0, c :: t =>
    if c == quote then some ([c], t)
    else if c == '\\' then
      if escapeLength t == 0 then none
      else (quotedRest quote (escapeLength t) t).map fun (w, r) => (c :: w, r)
    else if c == '\n' || c == '\r' then none
    else (quotedRest quote 0 t).map fun (w, r) => (c :: w, r)

def string : Parser Node := do
  let c ← skipped
  match c.rest with
  | q :: t =>
    if q == '\'' || q == '"' then
      match quotedRest q 0 t with
      | some (w, r) => leaf .string (q :: w) r
      | none => absent
    else absent
  | [] => absent

/-- A string in markup: everything up to the next quote of its kind. -/
def markupString : Parser Node := do
  let c ← skipped
  match c.rest with
  | q :: t =>
    if q == '\'' || q == '"' then
      let body := t.takeWhile (· != q)
      match t.drop body.length with
      | _ :: r => leaf .string (q :: body ++ [q]) r
      | [] => absent
    else absent
  | [] => absent

/-! ## Regular expressions -/

/-- The rest of a regular expression behind its opening slash, closing slash included. -/
def regexRest : Bool → Bool → Text → Option (Text × Text)
  | _, _, [] => none
  | inClass, true, c :: t =>
    if c == '\n' then none else (regexRest inClass false t).map fun (w, r) => (c :: w, r)
  | inClass, false, c :: t =>
    if c == '\n' then none
    else if c == '/' && !inClass then some ([c], t)
    else
      let inClass := if c == '[' then true else if c == ']' then false else inClass
      (regexRest inClass (c == '\\') t).map fun (w, r) => (c :: w, r)

def regex : Parser Node := do
  let c ← skipped
  match c.rest with
  | '/' :: t =>
    match regexRest false false t with
    | some (w, r) =>
      let flags := r.takeWhile Char.isLower
      if w.length ≤ 1 then absent else leaf .regex ('/' :: w ++ flags) (r.drop flags.length)
    | none => absent
  | _ => absent

/-! ## Templates -/

/-- The characters of a template up to its next hole or its end. -/
def templateRun : Bool → Text → Text × Text
  | _, [] => ([], [])
  | true, c :: t => let (w, r) := templateRun false t; (c :: w, r)
  | false, c :: t =>
    if c == '`' then ([], c :: t)
    else if c == '$' && t.head? == some '{' then ([], c :: t)
    else let (w, r) := templateRun (c == '\\') t; (c :: w, r)

/-- Past some characters that make no node of their own. -/
def plain (split : Text → Text × Text) : Parts := ⟨fun c =>
  let (taken, rest) := split c.rest
  .found [] (c.past taken rest)⟩

/-- A template whose holes are nodes of kind `hole` over `inner`. -/
def template (k hole : Kind) (n : Nat) (inner : Parser Node) : Parser Node :=
  node k [mark "`", plain (templateRun false),
    repeated n (inOrder
      [node hole [mark "$\x7b", must (breakable false inner), must (mark "\x7d")],
       plain (templateRun false)]),
    must (mark "`")]

end ClientMigration.Script.Grammar
