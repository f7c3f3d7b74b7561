/-
# Script.Grammar.Markup -- elements embedded in a module

Elements with their attributes and content. The text between elements is taken
as it stands; values in braces are read as everywhere else.
-/
import ClientMigration.Script.Grammar.Typing

namespace ClientMigration.Script.Grammar.Rules

set_option autoImplicit false

open Grammar.Parser

variable (g : Rules)

/-- The characters of a name in markup, which may hold hyphens. -/
def markupWord (k : Kind) : Parser Node := do
  let c ← skipped
  let rec taken : Text → Text
    | [] => []
    | ch :: t => if isWordPart ch || ch == '-' then ch :: taken t else []
  match c.rest with
  | ch :: _ =>
    if isWordStart ch then
      let w := taken c.rest
      leaf k w (c.rest.drop w.length)
    else absent
  | [] => absent

/-- The name of an element: a word, a member, or a word within a namespace. -/
def elementName : Parser Node := do
  let rec members : Nat → Node → Parser Node
    | 0, n => return n
    | k + 1, n =>
      oneOf
        [do let n' ← node .memberExpression
              [pure [n.playing .object], mark ".", (anyName .propertyIdentifier).as .property]
            members k n',
         return n]
  let head ← markupWord .identifier
  oneOf
    [node .markupNamespaceName [pure [head], mark ":", markupWord .identifier],
     members g.limit head]

def markupExpression : Parser Node :=
  node .markupExpression
    [enclosed "\x7b" "\x7d" (oneOf
      [node .spreadElement [mark "...", must g.expression], g.sequence, Parser.pure []])]

def markupAttribute : Parser Node :=
  oneOf
    [g.markupExpression,
     node .markupAttribute
      [oneOf
        [node .markupNamespaceName
          [markupWord .propertyIdentifier, mark ":", markupWord .propertyIdentifier],
         markupWord .propertyIdentifier],
       optional (inOrder
        [mark "=", must (oneOf [markupString, g.markupExpression, g.read .element])])]]

/-- The text of an entity such as `&nbsp;`, after its first character. -/
def entityRest (t : Text) : Text :=
  let body := t.takeWhile fun c => c.isAlphanum || c == '#'
  if (t.drop body.length).head? == some ';' && !body.isEmpty then body ++ [';'] else []

/-- Text between elements: at least one character, up to a brace, an angle bracket or an
ampersand. -/
def markupText : Parser Node := ⟨fun c =>
  let w := c.rest.takeWhile fun ch => !("<>&\x7b\x7d".toList.contains ch)
  if w.isEmpty then .absent c.far else (leaf .markupText w (c.rest.drop w.length)).run c⟩

def markupEntity : Parser Node := ⟨fun c =>
  match c.rest with
  | '&' :: t =>
    let body := entityRest t
    if body.isEmpty then .absent c.far
    else (leaf .markupText ('&' :: body) (t.drop body.length)).run c
  | _ => .absent c.far⟩

def content : Parts :=
  repeated g.limit (oneOf [markupText, markupEntity, g.markupExpression, g.read .element])

def closingTag : Parser Node :=
  node .closingTag [mark "<", mark "/", optional g.elementName, mark ">"]

/-- An element with its content, or one that closes itself. -/
def elementForm : Parser Node := breakable false (do
  let head ← inOrder [mark "<", notAhead (mark "/") *> Parser.pure []]
  let name ← optional (inOrder
    [g.elementName.as .name, optional (g.typeArguments.as .type)])
  let attributes ← if name.isEmpty then Parser.pure [] else repeated g.limit g.markupAttribute
  let front := head ++ name ++ attributes
  oneOf
    [do
      let opening ← node .openingTag [pure front, mark ">"]
      node .element [pure [opening], g.content, must g.closingTag],
     if name.isEmpty then absent
     else node .selfClosingElement [pure front, mark "/", must (mark ">")]])

end ClientMigration.Script.Grammar.Rules
