/-
# Script.Grammar.Pattern -- what a value is taken apart into

Patterns name the parts of a value: in declarations, in parameters, and on the
left of an assignment. A binding is a name or a pattern of bindings; a target
of an assignment may also be a member of something.
-/
import ClientMigration.Script.Grammar.Rules

namespace ClientMigration.Script.Grammar.Rules

set_option autoImplicit false

open Grammar.Parser

variable (g : Rules)

/-- Words that begin a value of their own and so name nothing where a value may stand. -/
def valueWords : List String :=
  ["function", "class", "new", "await", "typeof", "void", "delete", "this", "super", "null",
   "true", "false", "undefined", "import"]

/-- A name where a value may stand. -/
def identifier : Parser Node := nameBut valueWords .identifier

/-- A member of something, as a target of an assignment. -/
def memberTarget : Parser Node := do
  let head ← oneOf [keyword .this "this", identifier]
  let rec climb : Nat → Node → Parser Node
    | 0, n => return n
    | k + 1, n =>
      oneOf
        [do let n' ← node .memberExpression
              [pure [n.playing .object], mark ".", (anyName .propertyIdentifier).as .property]
            climb k n',
         do let n' ← node .subscriptExpression
              [pure [n.playing .object], enclosed "[" "]" (g.expression.as .index)]
            climb k n',
         return n]
  climb g.limit head

/-- A name to be bound, or a pattern of them. -/
def binding : Parser Node := do
  match ← peekChar with
  | some '\x7b' => g.read .pattern
  | some '[' => g.read .pattern
  | _ => anyName .identifier

/-- What one part of a pattern goes to. -/
def target : Parser Node := do
  match ← peekChar with
  | some '\x7b' => g.read .pattern
  | some '[' => g.read .pattern
  | _ => g.memberTarget

/-- `=` and the value to use where there is none. -/
def fallback : Parts :=
  inOrder [markBefore "=>" "=", must (g.expression.as .right)]

def targetWithFallback : Parser Node := do
  let left ← g.target
  oneOf
    [node .assignmentPattern [pure [left.playing .left], g.fallback],
     return left]

def restPattern : Parser Node := node .restPattern [mark "...", g.target]

def objectPatternPart : Parser Node :=
  oneOf
    [g.restPattern,
     node .pairPattern [g.propertyName.as .key, mark ":", g.targetWithFallback.as .value],
     node .objectAssignmentPattern
       [(anyName .shorthandPropertyIdentifierPattern).as .left, g.fallback],
     anyName .shorthandPropertyIdentifierPattern]

def objectPattern : Parser Node :=
  node .objectPattern [enclosed "\x7b" "\x7d" (g.sparseList g.objectPatternPart)]

def arrayPattern : Parser Node :=
  node .arrayPattern [enclosed "[" "]" (g.sparseList (oneOf [g.restPattern, g.targetWithFallback]))]

def pattern : Parser Node := oneOf [g.objectPattern, g.arrayPattern]

end ClientMigration.Script.Grammar.Rules
