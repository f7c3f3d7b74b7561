/-
# Script.Grammar.Typing -- types

Type annotations, type arguments and the type expressions in them. Names inside
a type that stand for values (`typeof x`, the module part of `M.T`, parameters
of a function type) are `identifier` nodes as they are elsewhere; names of types
are not.
-/
import ClientMigration.Script.Grammar.Pattern

namespace ClientMigration.Script.Grammar.Rules

set_option autoImplicit false

open Grammar.Parser

variable (g : Rules)

def type : Parser Node := g.read .type

/-! ## Type parameters and arguments -/

def typeParameter : Parser Node := do
  let modifiers ← repeated g.limit (inOrder
    [words ["const", "in", "out"], ahead (anyName .identifier) *> Parser.pure []])
  node .typeParameter
    [pure modifiers, (anyName .typeIdentifier).as .name,
     optional (node .constraint [word "extends", must g.type]),
     optional (node .defaultType [mark "=", must g.type])]

def typeParameters : Parser Node :=
  node .typeParameters [enclosed "<" ">" (g.commaList g.typeParameter)]

def typeArguments : Parser Node :=
  node .typeArguments [enclosed "<" ">" (g.commaList g.type)]

/-! ## Parameters -/

def parameterModifiers : List String := ["public", "private", "protected", "override", "readonly"]

/-- A modifier in front of a parameter's name. -/
def parameterModifier : Parser Node := do
  let m ← node .modifier [words parameterModifiers]
  ahead (oneOf [anyName .identifier, mark "\x7b", mark "["])
  return m

/-- A decorator's expression: a name, a member of it, a call of that, or anything in parentheses. -/
def decorator : Parser Node := do
  let rec members : Nat → Node → Parser Node
    | 0, n => return n
    | k + 1, n =>
      oneOf
        [do let n' ← node .memberExpression
              [pure [n.playing .object], mark ".", (anyName .propertyIdentifier).as .property]
            members k n',
         return n]
  let at_ ← mark "@"
  let value ← must (oneOf
    [node .parenthesizedExpression [enclosed "(" ")" g.expression],
     do let callee ← members g.limit (← anyName .identifier)
        oneOf
          [node .callExpression
            [pure [callee.playing .function], optional g.typeArguments,
             (node .arguments [enclosed "(" ")" (g.sparseList (oneOf
               [node .spreadElement [mark "...", g.expression], g.expression]))]).as .arguments],
           return callee]])
  cover .decorator [at_, value]

def typed : Parser Node := node .declaredType [mark ":", must g.type]

/-- A parameter's name: a binding, the receiver, or the rest of the arguments. -/
def parameterTarget : Parser Node :=
  oneOf
    [node .restPattern [mark "...", g.binding],
     keyword .this "this",
     g.binding]

def parameter : Parser Node := do
  let front ← inOrder [repeated g.limit g.decorator, repeated g.limit parameterModifier]
  let name ← g.parameterTarget
  let rest : List Parts :=
    [optional g.typed,
     optional (inOrder [markBefore "=>" "=", must (g.expression.as .value)])]
  oneOf
    [node .optionalParameter ([pure front, pure [name.playing .pattern], mark "?"] ++ rest),
     node .requiredParameter ([pure front, pure [name.playing .pattern]] ++ rest)]

def parameters : Parser Node :=
  node .formalParameters [enclosed "(" ")" (g.commaList g.parameter)]

/-! ## Results -/

def thisType : Parser Node := keyword .thisType "this"

def typePredicate : Parser Node :=
  node .typePredicate
    [(oneOf [keyword .this "this", anyName .identifier]).as .name,
     word "is", g.type]

/-- What a function gives back, which may be a statement about its argument. -/
def resultType : Parser Node :=
  oneOf
    [node .assertsPredicate
      [word "asserts", attempt (oneOf
        [g.typePredicate, keyword .this "this", nameBut ["is"] .identifier])],
     attempt g.typePredicate,
     g.type]

def declaredResult : Parser Node := node .declaredType [mark ":", must g.resultType]

/-- Type parameters, parameters and result of something that is called. -/
def signature : Parts :=
  inOrder
    [optional (g.typeParameters.as .type), g.parameters.as .parameters,
     optional g.declaredResult]

/-! ## Members of an object type -/

/-- Whether what follows is the end of a member's name, so that the word before it was the name. -/
def memberNameEnds : Parser Bool :=
  sees (oneOf [marks ["(", "<", ":", "?", "=", ";", ",", "!", "\x7d"]])

/-- A word in front of a member's name. -/
def memberModifier (ws : List String) : Parser Node := do
  let m ← node .modifier [words ws]
  require !(← memberNameEnds)
  return m

def indexSignature : Parser Node :=
  node .indexSignature
    [optional (inOrder [optional (marks ["+", "-"]), word "readonly"]),
     enclosed "[" "]" (oneOf
       [inOrder [node .mappedTypeClause
          [(anyName .typeIdentifier).as .name, word "in", must g.type,
           optional (inOrder [word "as", must g.type])]],
        inOrder [(anyName .identifier).as .name, mark ":", g.type]]),
     optional (inOrder [optional (marks ["+", "-"]), mark "?"]),
     optional g.typed]

def objectTypeMember : Parser Node :=
  oneOf
    [attempt g.indexSignature,
     node .constructSignature
       [optional (word "abstract"), word "new", ahead (marks ["(", "<"]) *> Parser.pure [],
        g.signature],
     node .callSignature [g.signature],
     do let front ← repeated g.limit (memberModifier ["readonly", "get", "set", "static", "async"])
        let name ← g.propertyName
        let question ← optional (mark "?")
        oneOf
          [node .methodSignature [pure (front ++ [name.playing .name] ++ question), g.signature],
           node .propertySignature
             [pure (front ++ [name.playing .name] ++ question), optional g.typed]]]

/-- The end of a member: a comma, a semicolon, a line break or the closing brace. -/
def memberEnd : Parts := oneOf [mark ",", mark ";", lineEnd false]

def objectType : Parser Node :=
  node .objectType
    [breakable true (inOrder
      [mark "\x7b", optional (marks [",", ";"]),
       optional (inOrder [separated g.limit memberEnd g.objectTypeMember, optional memberEnd]),
       mark "\x7d"])]

/-! ## Names, queries and literals -/

def predefinedTypes : List String :=
  ["any", "number", "boolean", "string", "symbol", "void", "unknown", "never", "object"]

/-- A name of a type with the modules it is taken from. -/
def typeName : Parser Node := do
  let rec climb : Nat → Node → Parser Node
    | 0, n => return n.retag .typeIdentifier
    | k + 1, n =>
      oneOf
        [do let name ← mark "." *> anyName .propertyIdentifier
            oneOf
              [do ahead (markBefore "." ".")
                  climb k (← cover .nestedIdentifier [n.playing .object, name.playing .property]),
               do let name := (name.retag .typeIdentifier).playing .name
                  cover .nestedTypeIdentifier [n.playing .source, name]],
         return n.retag .typeIdentifier]
  climb g.limit (← anyName .identifier)

def namedType : Parser Node := do
  let name ← g.typeName
  oneOf
    [do let arguments ← g.typeArguments
        cover .genericType [name.playing .name, arguments],
     return name]

/-- Members of a value whose type is asked for. -/
def queriedMembers (head : Node) : Parser Node := do
  let rec climb : Nat → Node → Parser Node
    | 0, n => return n
    | k + 1, n =>
      oneOf
        [do let n' ← node .memberExpression
              [pure [n.playing .object], mark ".",
               (oneOf [anyName .propertyIdentifier, privateName]).as .property]
            climb k n',
         return n]
  climb g.limit head

/-- A module taken in where it is used. -/
def importedModule : Parser Node :=
  node .callExpression
    [(keyword .importCallee "import").as .function,
     (node .arguments [enclosed "(" ")" (g.sparseList g.expression)]).as .arguments]

def typeQuery : Parser Node :=
  node .typeQuery
    [word "typeof",
     must (do
       let head ← oneOf
         [g.importedModule, keyword .this "this", anyName .identifier]
       g.queriedMembers head),
     optional g.typeArguments]

def importedType : Parser Node := do
  let n ← g.queriedMembers (← g.importedModule)
  oneOf
    [do let arguments ← g.typeArguments
        cover .genericType [n.playing .name, arguments],
     return n]

def literalType : Parser Node :=
  node .literalType [oneOf
    [string, number, node .unaryExpression [marks ["-", "+"], number],
     keyword .booleanLiteral "true", keyword .booleanLiteral "false",
     keyword .nullLiteral "null",
     keyword .undefinedLiteral "undefined"]]

/-! ## Types -/

def tupleMember : Parser Node :=
  oneOf
    [attempt (node .tupleParameter
      [oneOf [node .restPattern [mark "...", anyName .identifier], anyName .identifier],
       optional (mark "?"), g.typed]),
     node .restType [mark "...", g.type],
     do let t ← g.type
        oneOf [node .optionalType [pure [t], mark "?"], return t]]

/-- A type that needs no operator. -/
def plainType : Parser Node := do
  match ← peekChar with
  | some '(' => node .parenthesizedType [enclosed "(" ")" g.type]
  | some '[' => node .tupleType [enclosed "[" "]" (g.commaList g.tupleMember)]
  | some '\x7b' => g.objectType
  | some '`' => template .templateLiteralType .templateType g.limit g.type
  | some '*' => node .existentialType [mark "*"]
  | _ =>
    match ← peekWord with
    | "typeof" => g.typeQuery
    | "this" => thisType
    | "import" => g.importedType
    | "true" | "false" | "null" | "undefined" | "" => literalType
    | w =>
      if predefinedTypes.contains w then
        oneOf
          [do let t ← node .predefinedType [word w]
              notAhead (mark ".")
              return t,
           g.namedType]
      else g.namedType

/-- Whether a line break here ends a type. -/
def typeBreaks : Parser Bool := do
  let c ← cursor
  return c.breakable && match sameLine c .blank c.pos c.rest with
    | (_, '\n' :: r) => lineBreakAllows false (skipGap .blank 0 [] r).1
    | _ => false

/-- Arrays of a type and types of its members. -/
def typeSuffixes : Nat → Node → Parser Node
  | 0, n => return n
  | k + 1, n => do
    if ← typeBreaks then return n
    else
      oneOf
        [do let n' ← node .arrayType [pure [n], enclosed "[" "]" (Parser.pure [])]
            typeSuffixes k n',
         do let n' ← node .lookupType [pure [n], enclosed "[" "]" g.type]
            typeSuffixes k n',
         return n]

/-- A type with the operators in front of it. -/
def typeOperand : Parser Node := do
  match ← peekWord with
  | "keyof" =>
    oneOf [node .indexTypeQuery [word "keyof", g.read .typeOperand],
           do g.typeSuffixes g.limit (← g.namedType)]
  | "readonly" =>
    oneOf [node .readonlyType [word "readonly", g.read .typeOperand],
           do g.typeSuffixes g.limit (← g.namedType)]
  | "unique" =>
    oneOf [node .predefinedType [word "unique", word "symbol"],
           do g.typeSuffixes g.limit (← g.namedType)]
  | "infer" =>
    oneOf
      [node .inferType
        [word "infer", anyName .typeIdentifier,
         optional (attempt (inOrder
           [node .constraint [word "extends", g.read .typeOperand],
            notAhead (mark "?") *> Parser.pure []]))],
       do g.typeSuffixes g.limit (← g.namedType)]
  | _ => do g.typeSuffixes g.limit (← g.plainType)

/-- Types joined by a mark, which may also stand in front of the first. -/
def joined (k : Kind) (m : String) (item : Parser Node) : Parser Node := do
  let lead ← optional (mark m)
  let first ← item
  let more ← repeated g.limit (do
    if ← typeBreaks then absent else inOrder [mark m, item])
  if lead.isEmpty && more.isEmpty then return first else cover k (lead ++ first :: more)

def functionType : Parser Node :=
  oneOf
    [node .constructorType
      [optional (word "abstract"), word "new", optional g.typeParameters,
       g.parameters.as .parameters, mark "=>", must g.type],
     node .functionType
      [optional g.typeParameters, g.parameters.as .parameters, mark "=>", must g.resultType]]

def unionType : Parser Node :=
  g.joined .unionType "|" (g.joined .intersectionType "&" (oneOf
    [attempt g.functionType, g.read .typeOperand]))

def conditionalType : Parser Node := do
  let tested ← g.unionType
  if ← typeBreaks then return tested
  else
    oneOf
      [attempt (node .conditionalType
        [pure [tested], word "extends", g.unionType, mark "?", g.type, mark ":", g.type]),
       return tested]

end ClientMigration.Script.Grammar.Rules
