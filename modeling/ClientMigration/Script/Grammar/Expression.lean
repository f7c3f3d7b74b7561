/-
# Script.Grammar.Expression -- values

From the inside out: values that need no operator, what may follow them
(members, calls, type arguments), unary and binary operators, choices and
assignments. Binary operators are read as a row and grouped by `regroup`, which
knows nothing of the text.
-/
import ClientMigration.Script.Grammar.Callable

namespace ClientMigration.Script.Grammar.Rules

set_option autoImplicit false

open Grammar.Parser

variable (g : Rules)

/-! ## Values that need no operator -/

def parenthesized : Parser Node :=
  node .parenthesizedExpression
    [enclosed "(" ")" (inOrder [must g.sequence, optional g.typed])]

def array : Parser Node :=
  node .array [enclosed "[" "]" (g.sparseList (oneOf
    [node .spreadElement [mark "...", must g.expression], g.expression]))]

/-- Modifiers of a member of an object. -/
def objectModifier : Parser Node := memberModifier ["async", "get", "set", "static"]

/-- A member of an object: spread, a pair, a method, or a name that stands for both. -/
def objectPart : Parser Node :=
  oneOf
    [node .spreadElement [mark "...", must g.expression],
     do
      let front ← inOrder [repeated g.limit objectModifier, optional (mark "*")]
      let name ← g.propertyName.as .name
      match ← peekChar with
      | some '(' => method front name
      | some '<' => method front name
      | some ':' =>
        if front.isEmpty then
          node .pair [pure [name.playing .key], mark ":", must (g.expression.as .value)]
        else absent
      | _ =>
        if front.isEmpty && name.kind == .propertyIdentifier then
          return .mk .shorthandPropertyIdentifier none name.start name.stop []
        else absent]
where
  method (front : List Node) (name : Node) : Parser Node :=
    node .methodDefinition [pure (front ++ [name]), must g.signature, must (g.block.as .body)]

def object : Parser Node :=
  node .object [enclosed "\x7b" "\x7d" (g.sparseList g.objectPart)]

def templateString : Parser Node := template .templateString .templateSubstitution g.limit g.sequence

/-- The members behind what makes a new object; calls are not among them. -/
def makerMembers : Nat → Node → Parser Node
  | 0, m => return m
  | k + 1, m => do
    if (← cursor).breaksHere then return m
    else
      oneOf
        [do let m' ← node .memberExpression
              [pure [m.playing .object], mark ".",
               must ((oneOf [privateName, anyName .propertyIdentifier]).as .property)]
            makerMembers k m',
         do let m' ← node .subscriptExpression
              [pure [m.playing .object], enclosed "[" "]" (g.sequence.as .index)]
            makerMembers k m',
         do let m' ← node .nonNullExpression [pure [m], markBefore "=" "!"]
            makerMembers k m',
         return m]

/-- A new object: what it is made by, and perhaps the values it is made from. -/
def newExpression (primary : Parser Node) : Parser Node := do
  let front ← word "new"
  oneOf
    [node .metaProperty [pure [front], mark ".", word "target"],
     do
      let head ← if (← peekWord) == "new" then g.read .construction else must primary
      let maker ← g.makerMembers g.limit head
      node .newExpression
        [pure [front, maker.playing .function],
         optional (attempt (inOrder [g.typeArguments.as .type, ahead (mark "(") *> Parser.pure []])),
         optional (g.arguments.as .arguments)]]

/-- A value that begins with a word, other than a new object. -/
def wordValue : Parser Node := do
  match ← peekWord with
  | "this" => keyword .this "this"
  | "super" => keyword .super "super"
  | "null" => keyword .nullLiteral "null"
  | "true" => keyword .booleanLiteral "true"
  | "false" => keyword .booleanLiteral "false"
  | "undefined" => keyword .undefinedLiteral "undefined"
  | "function" => g.functionExpression
  | "async" => oneOf [g.functionExpression, identifier]
  | "class" => g.classOf .classExpression [] (optional className) (g.read .reference)
  | "new" => g.read .construction
  | "import" =>
    oneOf
      [node .metaProperty [word "import", mark ".", word "meta"],
       do let callee ← keyword .importCallee "import"
          ahead (mark "(")
          return callee]
  | _ => identifier

def primary : Parser Node := do
  match ← peekChar with
  | none => absent
  | some '(' => g.parenthesized
  | some '[' => g.array
  | some '\x7b' => g.object
  | some '`' => g.templateString
  | some '\'' => string
  | some '"' => string
  | some '/' => regex
  | some '#' =>
    let name ← privateName
    ahead (word "in")
    return name
  | some '<' => if g.markup then g.read .element else absent
  | some '@' =>
    let front ← repeated g.limit g.decorator
    g.classOf .classExpression front (optional className) (g.read .reference)
  | some c => if c.isDigit || c == '.' then number else g.wordValue

def construction : Parser Node := g.newExpression g.primary

/-! ## What follows a value -/

/-- Whether the text goes on in a way that type arguments alone may be followed by. -/
def endsInstance : Parser Unit := do
  match ← peekChar with
  | none => return
  | some c =>
    if ")],;:\x7d?".toList.contains c || (← cursor).breaksHere then return else absent

/-- One more member, call, mark or list of type arguments behind `n`. -/
def follower (n : Node) : Parser Node := do
  if (← cursor).breaksHere then absent
  else
    match ← peekChar with
    | some '.' =>
      node .memberExpression
        [pure [n.playing .object], markBefore "." ".",
         must ((oneOf [privateName, anyName .propertyIdentifier]).as .property)]
    | some '?' =>
      let chain ← node .optionalChain [markBefore "0123456789" "?."]
      oneOf
        [node .subscriptExpression
          [pure [n.playing .object, chain], enclosed "[" "]" (g.sequence.as .index)],
         node .callExpression
          [pure [n.playing .function, chain], optional g.typeArguments, g.arguments.as .arguments],
         node .memberExpression
          [pure [n.playing .object, chain],
           must ((oneOf [privateName, anyName .propertyIdentifier]).as .property)]]
    | some '[' =>
      node .subscriptExpression
        [pure [n.playing .object], must (enclosed "[" "]" (g.sequence.as .index))]
    | some '(' => node .callExpression [pure [n.playing .function], must (g.arguments.as .arguments)]
    | some '`' => node .callExpression [pure [n.playing .function], g.templateString.as .arguments]
    | some '!' => node .nonNullExpression [pure [n], markBefore "=" "!"]
    | some '<' =>
      let types ← attempt g.typeArguments
      match ← peekChar with
      | some '(' =>
        node .callExpression
          [pure [n.playing .function, types], must (g.arguments.as .arguments)]
      | some '`' =>
        node .callExpression [pure [n.playing .function, types], g.templateString.as .arguments]
      | _ =>
        endsInstance
        cover .instantiationExpression [n, types]
    | _ => absent

def followers : Nat → Node → Parser Node
  | 0, n => return n
  | k + 1, n => oneOf [do followers k (← g.follower n), return n]

def reference : Parser Node := do
  g.followers g.limit (← g.primary)

/-! ## Unary operators -/

def unaryMark : Parser Node :=
  oneOf [mark "!", mark "~", markBefore "+" "+", markBefore "-" "-"]

/-- A value, perhaps counted up or down. -/
def updated : Parser Node := do
  let n ← g.reference
  if (← cursor).breaksHere then return n
  else oneOf [node .updateExpression [pure [n], marks ["++", "--"]], return n]

def operandForm : Parser Node := do
  match ← peekWord with
  | "typeof" => unaryWord "typeof"
  | "void" => unaryWord "void"
  | "delete" => unaryWord "delete"
  | "await" => node .awaitExpression [word "await", must (g.read .operand)]
  | _ =>
    oneOf
      [node .unaryExpression [unaryMark, must ((g.read .operand).as .operand)],
       node .updateExpression [marks ["++", "--"], must ((g.read .operand).as .operand)],
       if g.markup then absent
       else attempt (node .typeAssertion [g.typeArguments, g.read .operand]),
       g.updated]
where
  unaryWord (w : String) : Parser Node :=
    node .unaryExpression [word w, must ((g.read .operand).as .operand)]

/-! ## Binary operators -/

/-- What stands between two operands, or behind one. -/
inductive Joint where
  | operator (level : Nat) (token right : Node)
  | typing (kind : Kind) (token type : Node)

/-- Binary marks with how tightly they bind and what must not follow them. -/
def binaryMarks : List (String × Nat × String) :=
  [("===", 7, ""), ("!==", 7, ""), ("==", 7, ""), ("!=", 7, ""),
   ("**", 12, "="), ("*", 11, "=*"), ("/", 11, "="), ("%", 11, "="),
   ("+", 10, "=+"), ("-", 10, "=-"),
   (">>>", 9, "="), (">>", 9, "=>"), ("<<", 9, "="),
   ("<=", 8, ""), (">=", 8, ""), ("<", 8, "<"), (">", 8, ">"),
   ("&&", 3, "="), ("&", 6, "=&"), ("||", 2, "="), ("|", 4, "=|"), ("??", 1, "="), ("^", 5, "=")]

def joint : Parser Joint := do
  if (← cursor).breaksHere then absent
  else
    match ← peekWord with
    | "instanceof" => operator 8 (word "instanceof")
    | "in" => operator 8 (word "in")
    | "as" =>
      let token ← word "as"
      let type ← must (oneOf [word "const", g.type])
      return .typing .asExpression token type
    | "satisfies" =>
      let token ← word "satisfies"
      return .typing .satisfiesExpression token (← must g.type)
    | _ => oneOf (binaryMarks.map fun (m, level, next) => operator level (markBefore next m))
where
  operator (level : Nat) (token : Parser Node) : Parser Joint := do
    let token ← token
    return .operator level token (← must (g.read .operand))

/-- `left` and `right` joined by an operator. -/
def join (left token right : Node) : Node :=
  .mk .binaryExpression none left.start right.stop
    [left.playing .left, token.playing .operator, right.playing .right]

/-- Joins the operands that wait for `right`, as long as their operators bind at `level` or
tighter. -/
def settle (level : Nat) : List (Node × Nat × Node) → Node → List (Node × Nat × Node) × Node
  | [], right => ([], right)
  | (left, l, token) :: waiting, right =>
    if level ≤ l then settle level waiting (join left token right)
    else ((left, l, token) :: waiting, right)

/-- The tree of a row of operands. Operators of one level join from the left, powers from the
right; a type joins to all that binds tighter than a comparison. -/
def regroup : List (Node × Nat × Node) → Node → List Joint → Node
  | waiting, last, [] => (settle 0 waiting last).2
  | waiting, last, .operator level token right :: more =>
    let (waiting, left) := settle (if level == 12 then 13 else level) waiting last
    regroup ((left, level, token) :: waiting) right more
  | waiting, last, .typing kind token type :: more =>
    let (waiting, left) := settle 8 waiting last
    regroup waiting (.mk kind none left.start type.stop [left, token, type]) more

def binary : Parser Node := do
  let first ← g.read .operand
  return regroup [] first (← many g.limit g.joint)

/-! ## Choices, assignments, arrows -/

/-- The mark of a choice, which is no part of a chain or of an alternative to nothing. -/
def choiceMark : Parser Node := do
  let c ← skipped
  match c.rest with
  | '?' :: '?' :: _ => absent
  | '?' :: '.' :: d :: _ => if d.isDigit then mark "?" else absent
  | _ => mark "?"

def ternary (typedArrows : Bool) : Parser Node := do
  let condition ← g.binary
  oneOf
    [do
      let question ← choiceMark
      let middle ← oneOf
        [attempt (inOrder [g.expression.as .consequence, mark ":"]),
         must (inOrder [(g.read (.expression false)).as .consequence, mark ":"])]
      node .ternaryExpression
        [pure (condition.playing .condition :: question :: middle),
         must ((g.read (.expression typedArrows)).as .alternative)],
     return condition]

def isAssignable : Kind → Bool
  | .identifier | .memberExpression | .subscriptExpression | .parenthesizedExpression
  | .nonNullExpression | .undefinedLiteral => true
  | _ => false

def augmentedMarks : List String :=
  ["+=", "-=", "*=", "/=", "%=", "^=", "&=", "|=", ">>>=", ">>=", "<<=", "**=", "&&=", "||=", "??="]

def assignment (typedArrows : Bool) : Parser Node := do
  let left ← g.ternary typedArrows
  if isAssignable left.kind && !(← cursor).breaksHere then
    oneOf
      [node .assignmentExpression
        [pure [left.playing .left], markBefore "=>" "=", must (right.as .right)],
       node .augmentedAssignmentExpression
        [pure [left.playing .left], marks augmentedMarks, must (right.as .right)],
       return left]
  else return left
where
  right : Parser Node := g.read (.expression typedArrows)

/-- An assignment to the parts of a value. -/
def destructuring : Parser Node := do
  let head ← attempt (inOrder [(g.read .pattern).as .left, markBefore "=>" "="])
  node .assignmentExpression [pure head, must (g.expression.as .right)]

def yieldExpression : Parser Node := do
  let front ← word "yield"
  oneOf
    [node .yieldExpression [pure [front], mark "*", must g.expression],
     do if (← cursor).breaksHere then cover .yieldExpression [front] else absent,
     node .yieldExpression [pure [front], g.expression],
     cover .yieldExpression [front]]

/-- Whether type parameters, and not markup, begin here. -/
def typeParametersAhead : Parser Bool :=
  sees (do
    let _ ← mark "<"
    let _ ← anyName .typeIdentifier
    oneOf
      [do let _ ← mark ","
          return (),
       do let _ ← word "extends"
          notAhead (marks ["=", ">", "/"])])

def expressionForm (typedArrows : Bool) : Parser Node := do
  match ← peekChar with
  | some '(' => oneOf [g.arrowFunction typedArrows, g.assignment typedArrows]
  | some '<' =>
    if g.markup then
      if ← typeParametersAhead then g.arrowFunction typedArrows else g.assignment typedArrows
    else oneOf [g.arrowFunction typedArrows, g.assignment typedArrows]
  | some '[' => oneOf [g.destructuring, g.assignment typedArrows]
  | some '\x7b' => oneOf [g.destructuring, g.assignment typedArrows]
  | _ =>
    match ← peekWord with
    | "" => g.assignment typedArrows
    | "yield" => g.yieldExpression
    | "async" => oneOf [g.arrowFunction typedArrows, g.assignment typedArrows]
    | _ =>
      if ← sees (inOrder [nameBut valueWords .identifier, mark "=>"]) then
        g.arrowFunction typedArrows
      else g.assignment typedArrows

end ClientMigration.Script.Grammar.Rules
