/-
# Script.Grammar.Rules -- the forms that contain one another

Every form of the grammar is a plain definition over `Rules`, which reads the
few forms that occur inside their own parts. The knot is tied once, in
`Script.Grammar.Module`.
-/
import ClientMigration.Script.Grammar.Literal

namespace ClientMigration.Script.Grammar

set_option autoImplicit false

/-- Forms that occur inside their own parts. -/
inductive Form where
  | statement
  /-- A value without a comma; the flag says whether an arrow may have a type for its result. -/
  | expression (typedArrows : Bool)
  /-- A value with the unary operators in front of it. -/
  | operand
  /-- A value with the members and calls behind it. -/
  | reference
  /-- A new object. -/
  | construction
  | pattern
  | type
  /-- A type with the type operators in front of it. -/
  | typeOperand
  | element

structure Rules where
  read : Form → Parser Node
  /-- Whether `<name>` begins markup; otherwise it may begin a cast. -/
  markup : Bool
  /-- How often a form may repeat. -/
  limit : Nat

namespace Rules

open Grammar.Parser

variable (g : Rules)

def expression : Parser Node := g.read (.expression true)

/-- Items with commas between them, and perhaps one more comma behind the last. -/
def commaList (item : Parser Node) : Parts :=
  optional (inOrder [separated g.limit (mark ",") item, optional (mark ",")])

/-- As `commaList`, but items may be missing. -/
def sparseList (item : Parser Node) : Parts :=
  inOrder [optional item, repeated g.limit (inOrder [mark ",", optional item])]

/-- Parts between two marks, inside which a line break ends nothing. -/
def enclosed (openMark closeMark : String) (inner : Parts) : Parts :=
  breakable false (inOrder [mark openMark, inner, mark closeMark])

/-- One value, or several with commas between them. -/
def sequence : Parser Node := do
  let first ← g.expression
  let more ← repeated g.limit (inOrder [mark ",", must g.expression])
  if more.isEmpty then return first else cover .sequenceExpression (first :: more)

def block : Parser Node :=
  node .statementBlock [mark "\x7b",
    breakable true (repeated g.limit (g.read .statement)),
    must (mark "\x7d"), optional (lineEnd true)]

def computedName : Parser Node :=
  node .computedPropertyName [enclosed "[" "]" g.expression]

def privateName : Parser Node := do
  let c ← skipped
  match c.rest with
  | '#' :: t =>
    let (w, r) := wordSplit t
    if w.isEmpty then absent else leaf .privatePropertyIdentifier ('#' :: w) r
  | _ => absent

/-- The name of a member. -/
def propertyName : Parser Node :=
  oneOf [anyName .propertyIdentifier, privateName, string, number, g.computedName]

end Rules

end ClientMigration.Script.Grammar
