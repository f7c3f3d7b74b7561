/-
# Codemod.CallEdits -- changes to the calls of a module

`client.verb(…)` on a legacy client becomes a call on a client declared in the
body of the nearest function: one that is declared there already in front of the
call, or a new one at the head of the body under a name that the body does not
use. Where no such body is, the factory call itself takes the client's place. A
bare call of the accessor becomes a factory call for the signed-in user.
-/
import ClientMigration.Text.Edit
import ClientMigration.Codemod.Setting

namespace ClientMigration.Codemod

set_option autoImplicit false

open Script

/-! ## Names -/

mutual

/-- The names that occur in a tree. -/
def usedNames (source : Text) : Node → List String
  | .mk .identifier r a b cs => [Node.name source (.mk .identifier r a b cs)]
  | .mk .shorthandPropertyIdentifier r a b cs =>
    [Node.name source (.mk .shorthandPropertyIdentifier r a b cs)]
  | .mk .shorthandPropertyIdentifierPattern r a b cs =>
    [Node.name source (.mk .shorthandPropertyIdentifierPattern r a b cs)]
  | .mk _ _ _ _ cs => usedNamesIn source cs

def usedNamesIn (source : Text) : List Node → List String
  | [] => []
  | n :: ns => usedNames source n ++ usedNamesIn source ns

end

/-- The names to try for a new client: the preferred one, a second one, and then the preferred one
with a number behind it. -/
def candidateName (preferred : String) : Nat → String
  | 0 => preferred
  | 1 => "presetClient"
  | n + 2 => preferred ++ toString (n + 2)

/-- The first candidate from `i` on that is not used, if it is one of the next `fuel`. -/
def firstFree? (used : List String) (preferred : String) : Nat → Nat → Option String
  | 0, _ => none
  | fuel + 1, i =>
    if used.contains (candidateName preferred i) then firstFree? used preferred fuel (i + 1)
    else some (candidateName preferred i)

/-- The first candidate that is not among the names used; the preferred one if no candidate were
free. Of the candidates but the second no two are equal, so two more candidates than there are names
used are enough. -/
def freshName (used : List String) (preferred : String) : String :=
  (firstFree? used preferred (used.length + 2) 0).getD preferred

/-! ## Bodies -/

/-- The block of the nearest function, if the place is inside it. -/
def bodyAround? (p : Place) : Option Node :=
  (p.function?.bind (·.child? .body)).filter fun b =>
    b.kind == .statementBlock && b.start ≤ p.node.start && p.node.start < b.stop

/-- The name of a variable that is given what the factory makes. -/
def constructedName? (s : Setting) (source : Text) (declarator : Node) : Option String :=
  match declarator.child? .name, declarator.child? .value with
  | some name, some value =>
    match value.child? .function with
    | some callee =>
      if declarator.kind == .variableDeclarator && name.kind == .identifier &&
        value.kind == .callExpression && callee.name source == s.factoryName then
        some (name.name source)
      else none
    | none => none
  | _, _ => none

/-- The name of a client that the block declares in front of an offset. -/
def existingClient? (s : Setting) (source : Text) (block : Node) (offset : Nat) : Option String :=
  (block.namedChildren.filter fun n =>
    (n.kind == .lexicalDeclaration || n.kind == .variableDeclaration) && n.stop ≤ offset).findSome?
      fun n => n.namedChildren.findSome? (constructedName? s source)

/-- Whether a statement is nothing but a string. -/
def isDirective (n : Node) : Bool :=
  n.kind == .expressionStatement &&
    match n.namedChildren with
    | [e] => e.kind == .string
    | _ => false

/-- The directives at the head of a block's named nodes, and what follows the last of them. -/
def prologue : Option Node → List Node → List Node → Option Node × List Node
  | last, rest, [] => (last, rest)
  | last, rest, n :: ns =>
    if n.kind == .comment then prologue last rest ns
    else if isDirective n then prologue (some n) ns ns
    else (last, rest)

/-- The edit that declares `name` at the head of a block; none if the block has no brace. -/
def declarationEdit? (s : Setting) (source : Text) (block : Node) (name : String) : Option Edit :=
  match block.children with
  | [] => none
  | brace :: inside =>
    if brace.kind != .token "\x7b" then none
    else
      let named := inside.filter Node.isNamed
      let (last?, rest) := prologue none named named
      let anchor := last?.getD brace
      let declaration := ("const " ++ name ++ " = " ++ s.factoryCall s.preset ++ ";").toList
      let onOwnLine (offset : Nat) : Text := '\n' :: source.indent offset ++ declaration
      let text :=
        match rest with
        | next :: _ =>
          if (source.slice anchor.stop next.start).hasLineFeed then onOwnLine next.start
          else ' ' :: declaration
        | [] => if last?.isSome then onOwnLine anchor.start else ' ' :: declaration
      some (.insert anchor.stop text)

/-! ## Calls on a client -/

/-- Walks for calls stop at imports and at plain names. -/
def entersForCalls (n : Node) : Bool :=
  match n.kind with
  | .importStatement | .identifier => false
  | _ => true

/-- The plain names outside imports. -/
def callPlaces (tree : Node) : List Place :=
  (tree.places entersForCalls []).filter (·.node.kind == .identifier)

/-- Edits so far, and the clients that they declare with the blocks they declare them in. -/
structure Clients where
  declared : List (Node × String) := []
  edits : List Edit := []

/-- The client that is already declared for a block. -/
def Clients.declaredIn? (c : Clients) (block : Node) : Option String :=
  (c.declared.find? fun d => d.1.start == block.start && d.1.stop == block.stop).map Prod.snd

/-- The replacement for a client at a place inside `block`, with what has to be declared for it. -/
def clientIn (s : Setting) (source : Text) (block : Node) (p : Place) (c : Clients) :
    String × Clients :=
  match existingClient? s source block p.node.start with
  | some name => (name, c)
  | none =>
    match c.declaredIn? block with
    | some name => (name, c)
    | none =>
      let name := freshName (usedNames source block) s.config.localClientName
      match declarationEdit? s source block name with
      | none => (s.factoryCall s.preset, c)
      | some e => (name, { declared := (block, name) :: c.declared, edits := c.edits ++ [e] })

/-- Whether a place is a call on an unshadowed legacy client. -/
def isClientCall (s : Setting) (source : Text) (p : Place) : Bool :=
  p.node.kind == .identifier && s.bindings.isKind .client (p.node.name source) &&
    isVerbCall s.config source p && !p.isShadowed source

def redirect (s : Setting) (source : Text) (c : Clients) (p : Place) : Clients :=
  if isClientCall s source p then
    let (text, c) :=
      match bodyAround? p with
      | some block => clientIn s source block p c
      | none => (s.factoryCall s.preset, c)
    { c with edits := c.edits ++ [⟨p.node.start, p.node.stop, text.toList⟩] }
  else c

/-- The clients declared in a tree, and its calls sent to them. -/
def redirected (s : Setting) (tree : Node) (source : Text) : Clients :=
  if s.bindings.replaces .client then (callPlaces tree).foldl (redirect s source) {} else {}

/-- Sends every call on a legacy client to a client made from the file's preset. -/
def callSiteEdits (s : Setting) (tree : Node) (source : Text) : List Edit :=
  (redirected s tree source).edits

/-! ## Calls of the accessor -/

/-- Whether a place is a bare call of an unshadowed accessor. -/
def isAccessorCall (s : Setting) (source : Text) (p : Place) : Bool :=
  p.node.kind == .identifier && s.bindings.isKind .accessor (p.node.name source) &&
    isBareCall p && !p.isShadowed source

/-- Makes bare calls of the accessor calls of the factory. -/
def accessorEdits (s : Setting) (tree : Node) (source : Text) : List Edit :=
  if s.bindings.replaces .accessor then
    (callPlaces tree).filterMap fun p =>
      if isAccessorCall s source p then
        p.parent?.map fun call => ⟨call.start, call.stop, (s.factoryCall .auth).toList⟩
      else none
  else []

end ClientMigration.Codemod
