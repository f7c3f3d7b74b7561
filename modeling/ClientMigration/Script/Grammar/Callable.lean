/-
# Script.Grammar.Callable -- functions, methods and classes

What can be called or constructed: functions and arrows as values, methods with
their accessors, class bodies and what a class inherits from.
-/
import ClientMigration.Script.Grammar.Typing

namespace ClientMigration.Script.Grammar.Rules

set_option autoImplicit false

open Grammar.Parser

variable (g : Rules)

/-- The values that a call is given. -/
def arguments : Parser Node :=
  node .arguments [enclosed "(" ")" (g.sparseList (oneOf
    [node .spreadElement [mark "...", must g.expression], g.expression]))]

/-! ## Methods -/

/-- A word in front of a method's or field's name. -/
def classModifiers : List String :=
  ["public", "private", "protected", "static", "override", "readonly", "abstract", "declare",
   "accessor", "async", "get", "set"]

/-- A modifier of a member, on the line of what it modifies. -/
def classModifier : Parser Node := do
  let m ← node .modifier [words classModifiers]
  require !(← memberNameEnds)
  let c ← cursor
  require !c.breaksHere
  return m

/-- Modifiers, a star and a name. -/
def memberName : Parts :=
  inOrder
    [repeated g.limit classModifier, optional (mark "*"), g.propertyName.as .name]

def methodDefinition : Parser Node :=
  node .methodDefinition
    [g.memberName, optional (mark "?"), g.signature, must (g.block.as .body)]

/-! ## Functions -/

def arrowBody (typedArrows : Bool) : Parser Node := do
  match ← peekChar with
  | some '\x7b' => must (g.block.as .body)
  | _ => must ((g.read (.expression typedArrows)).as .body)

/-- The part of an arrow in front of its body. -/
def arrowHead (typedArrows : Bool) : Parts :=
  oneOf
    [inOrder [(nameBut valueWords .identifier).as .parameter, mark "=>"],
     inOrder [word "async", (nameBut valueWords .identifier).as .parameter, mark "=>"],
     inOrder
       [optional (word "async"), optional (g.typeParameters.as .type),
        g.parameters.as .parameters,
        if typedArrows then optional g.declaredResult else Parser.pure [],
        mark "=>"]]

def arrowFunction (typedArrows : Bool) : Parser Node := do
  let head ← attempt (g.arrowHead typedArrows)
  let body ← g.arrowBody typedArrows
  cover .arrowFunction (head ++ [body])

def functionExpression : Parser Node := do
  let front ← inOrder [optional (word "async"), word "function"]
  let star ← optional (mark "*")
  node (if star.isEmpty then .functionExpression else .generatorFunction)
    [pure (front ++ star), optional ((anyName .identifier).as .name), must g.signature,
     must (g.block.as .body)]

/-- A function that is declared, or only its signature. -/
def functionDeclaration : Parser Node := do
  let front ← inOrder [optional (word "async"), word "function"]
  let star ← optional (mark "*")
  let name ← (anyName .identifier).as .name
  let rest ← must g.signature
  let head := front ++ star ++ name :: rest
  match ← peekChar with
  | some '\x7b' =>
    node (if star.isEmpty then .functionDeclaration else .generatorFunctionDeclaration)
      [pure head, must (g.block.as .body), optional (lineEnd true)]
  | _ => node .functionSignature [pure head, must (semicolonAfter false)]

/-! ## Classes -/

/-- What a class is built on: a value and its type arguments. -/
def heritage (base : Parser Node) : Parts :=
  let extended : Parser Node :=
    node .extendsClause
      [word "extends", must (separated g.limit (mark ",")
        (inOrder [base.as .value, optional (attempt g.typeArguments)]))]
  let implemented : Parser Node :=
    node .implementsClause [word "implements", must (separated g.limit (mark ",") g.type)]
  optional (node .classHeritage
    [oneOf [inOrder [extended, optional implemented], implemented]])

def staticBlock : Parser Node := do
  let front ← word "static"
  match ← peekChar with
  | some '\x7b' => node .classStaticBlock [pure [front], g.block.as .body, optional (lineEnd true)]
  | _ => absent

/-- The end of a field or of a method without a body. -/
def fieldEnd (afterValue : Bool) : Parts := oneOf [lineEnd afterValue, mark ";", mark ","]

def classMember : Parser Node := do
  let front ← repeated g.limit g.decorator
  oneOf
    [if front.isEmpty then staticBlock g else absent,
     if front.isEmpty then attempt (node .indexSignature
       [repeated g.limit classModifier, g.indexSignature, fieldEnd false]) else absent,
     do
      let name ← g.memberName
      let mark? ← optional (marks ["?", "!"])
      match ← peekChar with
      | some '(' => method (front ++ name ++ mark?)
      | some '<' => method (front ++ name ++ mark?)
      | _ =>
        let type ← optional g.typed
        let value ← optional (inOrder [markBefore "=>" "=", must (g.expression.as .value)])
        node .fieldDefinition
          [pure (front ++ name ++ mark? ++ type ++ value), must (fieldEnd !value.isEmpty)]]
where
  method (head : List Node) : Parser Node := do
    let rest ← must g.signature
    match ← peekChar with
    | some '\x7b' =>
      node .methodDefinition [pure (head ++ rest), must (g.block.as .body), optional semicolon]
    | _ => node .methodSignature [pure (head ++ rest), must (fieldEnd false)]

def classBody : Parser Node :=
  node .classBody
    [mark "\x7b",
     breakable true (repeated g.limit (oneOf [mark ";", g.classMember])),
     must (mark "\x7d")]

/-- A class over what stands in front of it, with a name or without. -/
def classOf (k : Kind) (front : List Node) (name : Parts) (base : Parser Node) : Parser Node :=
  node k
    [pure front, word "class", name, optional (g.typeParameters.as .type), g.heritage base,
     must (g.classBody.as .body)]

/-- The name of a class, which is none of the words that may follow one. -/
def className : Parser Node := (nameBut ["extends", "implements"] .typeIdentifier).as .name

end ClientMigration.Script.Grammar.Rules
