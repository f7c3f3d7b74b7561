/-
# Script.Grammar.Reader -- reading a module's text from left to right

A `Cursor` is the text still to be read and where it stands. A `Parser` takes a
cursor and either finds something and moves on, or sees that its form is
`absent`, or sees that its form began and is `broken`. Only an absent form may
be tried another way. Every outcome tells how far any way of reading has come,
so that the token that none of them takes is known.

Blanks and comments stand between any two tokens. A statement ends at its
semicolon, at a closing brace, at the end of the text, or at a line break that
the next token allows: `Cursor.lineEnd?` is that rule.
-/
import ClientMigration.Script.Node

namespace ClientMigration.Script.Grammar

set_option autoImplicit false

/-! ## Characters -/

/-- Spaces, line ends and the invisible separators. -/
def isBlank (c : Char) : Bool :=
  let n := c.toNat
  (9 ≤ n && n ≤ 13) || n == 0x20 || n == 0xA0 || n == 0x1680 || (0x2000 ≤ n && n ≤ 0x200B) ||
    n == 0x2028 || n == 0x2029 || n == 0x202F || n == 0x205F || n == 0x2060 || n == 0x3000 ||
    n == 0xFEFF

def isLineEnd (c : Char) : Bool :=
  c == '\n' || c == '\r' || c.toNat == 0x2028 || c.toNat == 0x2029

/-- Any character that is neither blank nor a control nor a mark of the grammar begins a word;
a digit continues one. -/
def isWordStart (c : Char) : Bool :=
  !(c.toNat < 0x20 || isBlank c || c.isDigit || ":;`\"'@#.,|^&<=>+-*/\\%?!~()[]\x7b\x7d".toList.contains c)

def isWordPart (c : Char) : Bool := isWordStart c || c.isDigit

def isHexDigit (c : Char) : Bool :=
  c.isDigit || ('a' ≤ c && c ≤ 'f') || ('A' ≤ c && c ≤ 'F')

/-- How many characters a written-out code point (`\u0061`, `\x7b`-braced or four digits) takes at
the head of a text; none takes zero. -/
def codePointLength : Text → Nat
  | '\\' :: 'u' :: '{' :: r =>
    let digits := r.takeWhile isHexDigit
    if !digits.isEmpty && (r.drop digits.length).head? == some '}' then digits.length + 4 else 0
  | '\\' :: 'u' :: a :: b :: c :: d :: _ =>
    if isHexDigit a && isHexDigit b && isHexDigit c && isHexDigit d then 6 else 0
  | _ => 0

/-- The characters of the word that goes on at the head of a text, and what follows it. -/
def wordRest : Nat → Text → Text × Text
  | _, [] => ([], [])
  | n + 1, c :: t => let (w, r) := wordRest n t; (c :: w, r)
  | 0, c :: t =>
    if isWordPart c then let (w, r) := wordRest 0 t; (c :: w, r)
    else if c == '\\' && 0 < codePointLength (c :: t) then
      let (w, r) := wordRest (codePointLength (c :: t) - 1) t; (c :: w, r)
    else ([], c :: t)

/-- The word at the head of a text, and what follows it. -/
def wordSplit : Text → Text × Text
  | [] => ([], [])
  | c :: t => if c.isDigit then ([], c :: t) else wordRest 0 (c :: t)

/-! ## Cursors -/

structure Cursor where
  /-- What is still to be read. -/
  rest : Text
  /-- The byte offset of `rest`. -/
  pos : Nat
  /-- Where the last token ended. -/
  stop : Nat
  /-- Comments passed, the latest first. -/
  comments : List Node
  /-- Whether a line break may end what is being read. -/
  breakable : Bool
  /-- The furthest end of a token that was read on any way. -/
  far : Nat

/-- A gap in the middle of which a reader may stand. -/
inductive Gap where
  | blank
  | line (start : Nat)
  | block (start : Nat) (before : Text) (star : Bool)

def comment (start stop : Nat) : Node := .mk .comment none start stop []

/-- What follows the blanks and comments at the head of a text: the rest, its offset, and the
comments on top of those given. A block comment that never closes is no comment. -/
def skipGap : Gap → Nat → List Node → Text → Text × Nat × List Node
  | .blank, pos, cs, '/' :: '/' :: r => skipGap (.line pos) (pos + 2) cs r
  | .blank, pos, cs, '/' :: '*' :: r => skipGap (.block pos ('/' :: '*' :: r) false) (pos + 2) cs r
  | .blank, pos, cs, c :: r =>
    if isBlank c then skipGap .blank (pos + c.utf8Size) cs r else (c :: r, pos, cs)
  | .blank, pos, cs, [] => ([], pos, cs)
  | .line start, pos, cs, c :: r =>
    if isLineEnd c then skipGap .blank (pos + c.utf8Size) (comment start pos :: cs) r
    else skipGap (.line start) (pos + c.utf8Size) cs r
  | .line start, pos, cs, [] => ([], pos, comment start pos :: cs)
  | .block start before star, pos, cs, c :: r =>
    if star && c == '/' then skipGap .blank (pos + 1) (comment start (pos + 1) :: cs) r
    else skipGap (.block start before (c == '*')) (pos + c.utf8Size) cs r
  | .block start before _, _, cs, [] => (before, start, cs)

/-- Past the blanks and comments. -/
def Cursor.skip (c : Cursor) : Cursor :=
  let (rest, pos, comments) := skipGap .blank c.pos c.comments c.rest
  { c with rest, pos, comments }

/-- Past a token that has been read. -/
def Cursor.past (c : Cursor) (taken rest : Text) : Cursor :=
  let pos := c.pos + Text.bytes taken
  { c with rest, pos, stop := pos, far := max c.far pos }

/-- Where a way ended that is given up. -/
def Cursor.reaching (c : Cursor) (far : Nat) : Cursor := { c with far := max c.far far }

/-- The head of a text up to its first line feed or first character that is neither blank nor part
of a comment. The cursor returned stands behind the last comment on the way. -/
def sameLine (c : Cursor) : Gap → Nat → Text → Cursor × Text
  | .blank, pos, '/' :: '/' :: r => sameLine c (.line pos) (pos + 2) r
  | .blank, pos, '/' :: '*' :: r => sameLine c (.block pos ('/' :: '*' :: r) false) (pos + 2) r
  | .blank, pos, ch :: r =>
    if ch != '\n' && isBlank ch then sameLine c .blank (pos + ch.utf8Size) r else (c, ch :: r)
  | .blank, _, [] => (c, [])
  | .line start, pos, ch :: r =>
    if isLineEnd ch then
      let c' := { c with rest := ch :: r, pos, stop := pos, comments := comment start pos :: c.comments }
      if ch == '\n' then (c', ch :: r) else sameLine c' .blank (pos + ch.utf8Size) r
    else sameLine c (.line start) (pos + ch.utf8Size) r
  | .line start, pos, [] =>
    ({ c with rest := [], pos, stop := pos, comments := comment start pos :: c.comments }, [])
  | .block start before star, pos, ch :: r =>
    if star && ch == '/' then
      let pos := pos + 1
      sameLine { c with rest := r, pos, stop := pos, comments := comment start pos :: c.comments }
        .blank pos r
    else sameLine c (.block start before (ch == '*')) (pos + ch.utf8Size) r
  | .block _ before _, _, [] => (c, before)

/-- Whether the word `w` stands at the head of a text and no letter follows it. -/
def wordAhead (w : String) (t : Text) : Bool :=
  match Text.after? t w with
  | none => false
  | some [] => true
  | some (c :: _) => !c.isAlpha

/-- Whether a statement may end at a line break that is followed by this text. It may not where the
text carries on a value; an opening bracket does so only behind a value. -/
def lineBreakAllows (afterValue : Bool) : Text → Bool
  | [] => true
  | c :: r =>
    if "`,.;*%><=?^|&/:".toList.contains c then false
    else if c == '(' || c == '[' then !afterValue
    else if c == '+' then r.head? == some '+'
    else if c == '-' then r.head? == some '-'
    else if c == '!' then r.head? != some '='
    else !(wordAhead "in" (c :: r) || wordAhead "instanceof" (c :: r))

/-- Where a statement ends that has no semicolon, if it may end here. -/
def Cursor.lineEnd? (afterValue : Bool) (c : Cursor) : Option Cursor :=
  let (c', ahead) := sameLine c .blank c.pos c.rest
  match ahead with
  | [] => some c'
  | '}' :: r =>
    if (r.dropWhile isBlank).head? == some ':' && !afterValue then none else some c'
  | '\n' :: r =>
    if lineBreakAllows afterValue (skipGap .blank 0 [] r).1 then some c' else none
  | _ => none

/-- Whether a line break stands here that ends the value before it. -/
def Cursor.breaksHere (c : Cursor) : Bool :=
  c.breakable && match sameLine c .blank c.pos c.rest with
    | (_, '\n' :: r) => lineBreakAllows true (skipGap .blank 0 [] r).1
    | _ => false

/-! ## Parsers -/

/-- What a parser comes to. A form that is not found tells how far it was read. -/
inductive Outcome (α : Type) where
  | found (value : α) (next : Cursor)
  | absent (far : Nat)
  | broken (far : Nat)

structure Parser (α : Type) where
  run : Cursor → Outcome α

namespace Parser

variable {α β : Type}

protected def pure (a : α) : Parser α := ⟨fun c => .found a c⟩

protected def bind (p : Parser α) (f : α → Parser β) : Parser β := ⟨fun c =>
  match p.run c with
  | .found a c' => (f a).run c'
  | .absent far => .absent far
  | .broken far => .broken far⟩

instance : Monad Parser where
  pure := Parser.pure
  bind := Parser.bind

/-- The second form where the first is absent. -/
protected def orElse (p : Parser α) (q : Unit → Parser α) : Parser α := ⟨fun c =>
  match p.run c with
  | .absent far => (q ()).run (c.reaching far)
  | o => o⟩

instance : OrElse (Parser α) := ⟨Parser.orElse⟩

def absent : Parser α := ⟨fun c => .absent c.far⟩

/-- A form that has begun: what is absent now is broken. -/
def must (p : Parser α) : Parser α := ⟨fun c =>
  match p.run c with
  | .absent far => .broken far
  | o => o⟩

/-- A form that may be given up: what is broken counts as absent. -/
def attempt (p : Parser α) : Parser α := ⟨fun c =>
  match p.run c with
  | .broken far => .absent far
  | o => o⟩

/-- Succeeds where `p` would, and stays. -/
def ahead (p : Parser α) : Parser Unit := ⟨fun c =>
  match p.run c with
  | .found _ _ => .found () c
  | _ => .absent c.far⟩

/-- Succeeds where `p` would not, and stays. -/
def notAhead (p : Parser α) : Parser Unit := ⟨fun c =>
  match p.run c with
  | .found _ _ => .absent c.far
  | _ => .found () c⟩

def require (b : Bool) : Parser Unit := if b then Parser.pure () else absent

def cursor : Parser Cursor := ⟨fun c => .found c c⟩

/-- Whether `p` would succeed here. -/
def sees (p : Parser α) : Parser Bool := ⟨fun c =>
  match p.run c with
  | .found _ _ => .found true c
  | _ => .found false c⟩

/-- The first form that is not absent. -/
def oneOf : List (Parser α) → Parser α
  | [] => absent
  | p :: ps => p.orElse fun _ => oneOf ps

/-- `p` as often as it succeeds and moves on, at most `n` times. -/
def many : Nat → Parser α → Parser (List α)
  | 0, _ => Parser.pure []
  | n + 1, p => ⟨fun c =>
    match p.run c with
    | .found a c' =>
      if c'.pos == c.pos then .found [] c
      else
        match (many n p).run c' with
        | .found as c'' => .found (a :: as) c''
        | .absent far => .absent far
        | .broken far => .broken far
    | .absent far => .found [] (c.reaching far)
    | .broken far => .broken far⟩

/-- `p` where line breaks end statements, or where they do not. -/
def breakable (b : Bool) (p : Parser α) : Parser α := ⟨fun c =>
  match p.run { c with breakable := b } with
  | .found a c' => .found a { c' with breakable := c.breakable }
  | .absent far => .absent far
  | .broken far => .broken far⟩

/-- The node in the part `r`. -/
def as (r : Role) (p : Parser Node) : Parser Node := Node.playing r <$> p

end Parser

open Grammar.Parser

/-- Children of a node, in reading order. -/
abbrev Parts := Parser (List Node)

instance : Coe (Parser Node) Parts := ⟨fun p => (fun n => [n]) <$> p⟩

/-- The parts one after the other. -/
def inOrder : List Parts → Parts
  | [] => pure []
  | p :: ps => do return (← p) ++ (← inOrder ps)

/-- The part if it is there. -/
def optional (p : Parts) : Parts := p <|> pure []

/-- As `p` finds them, for use where several forms stand in a row. -/
def repeated (n : Nat) (p : Parts) : Parts := List.flatten <$> many n p

/-- One or more of `p` with `by_` between them. -/
def separated (n : Nat) (separator p : Parts) : Parts :=
  inOrder [p, repeated n (attempt (inOrder [separator, p]))]

/-- A node over the parts, which end where the last token did. -/
def node (k : Kind) (parts : List Parts) : Parser Node := do
  let children ← inOrder parts
  let c ← cursor
  let start := (children.head?.map Node.start).getD c.stop
  return .mk k none start c.stop children

/-- A node over children already read. -/
def cover (k : Kind) (children : List Node) : Parser Node := node k [pure children]

/-! ## Tokens -/

/-- A leaf over the characters `taken`. -/
def leaf (k : Kind) (taken rest : Text) : Parser Node := ⟨fun c =>
  .found (.mk k none c.pos (c.pos + Text.bytes taken) []) (c.past taken rest)⟩

/-- Past the gap before a token. -/
def skipped : Parser Cursor := ⟨fun c => let c := c.skip; .found c c⟩

/-- The mark `m`, unless one of the characters `next` follows it. -/
def markBefore (next m : String) : Parser Node := do
  let c ← skipped
  match Text.after? c.rest m with
  | some r =>
    if r.head?.any (next.toList.contains ·) then absent
    else leaf (.token m) m.toList r
  | none => absent

def mark (m : String) : Parser Node := markBefore "" m

/-- The first mark of a list that stands here. -/
def marks (ms : List String) : Parser Node := oneOf (ms.map mark)

/-- The word ahead, empty if there is none. -/
def peekWord : Parser String := ⟨fun c =>
  .found (String.ofList (wordSplit c.skip.rest).1) c⟩

/-- The first character ahead. -/
def peekChar : Parser (Option Char) := ⟨fun c => .found c.skip.rest.head? c⟩

/-- The word `w` itself. -/
def word (w : String) : Parser Node := do
  let c ← skipped
  let (taken, rest) := wordSplit c.rest
  if taken == w.toList then leaf (.token w) taken rest else absent

def words (ws : List String) : Parser Node := oneOf (ws.map word)

/-- The word `w` as a node of kind `k`. -/
def keyword (k : Kind) (w : String) : Parser Node := Node.retag k <$> word w

/-- Any word but those of `reserved`, as a node of kind `k`. -/
def nameBut (reserved : List String) (k : Kind) : Parser Node := do
  let c ← skipped
  let (taken, rest) := wordSplit c.rest
  if taken.isEmpty || reserved.contains (String.ofList taken) then absent else leaf k taken rest

def anyName (k : Kind) : Parser Node := nameBut [] k

/-- The end of a statement where no semicolon is written. -/
def lineEnd (afterValue : Bool) : Parts := ⟨fun c =>
  match c.lineEnd? afterValue with
  | some c' => .found [] c'
  | none => .absent c.far⟩

/-- The end of a statement. -/
def semicolonAfter (afterValue : Bool) : Parts := lineEnd afterValue <|> mark ";"

def semicolon : Parts := semicolonAfter true

end ClientMigration.Script.Grammar
