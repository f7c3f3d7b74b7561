/-
# Codemod.Binding -- the legacy names of a module, and what refers to them

A binding is a name under which a module imports the legacy client or the
accessor of the signed-in user's client. Its references are the places outside
imports that spell the name and are not shadowed; some of them are of a form
that the rules replace. A binding whose references are all replaced can lose its
import.
-/
import ClientMigration.Script.Scope
import ClientMigration.Codemod.Import

namespace ClientMigration.Codemod

set_option autoImplicit false

open Script

inductive BindingKind where
  | client
  | accessor
  deriving DecidableEq, Repr

namespace BindingKind

def name : BindingKind → String
  | .client => "client"
  | .accessor => "accessor"

end BindingKind

structure Binding where
  /-- What the module calls it. -/
  name : String
  kind : BindingKind
  references : Nat
  /-- References that a rule replaces. -/
  replaceable : Nat
  deriving DecidableEq, Repr

namespace Binding

/-- Whether the import can go: something refers to the name, and all of it is replaced. -/
def isDroppable (b : Binding) : Bool := 0 < b.references && b.references == b.replaceable

end Binding

/-- The legacy names of a module in the order of their imports. -/
structure Bindings where
  list : List Binding := []
  /-- What the module calls the factory, if it imports it. -/
  factory? : Option String := none
  /-- The quote of the first import. -/
  quote : Char := '\''
  deriving Repr

namespace Bindings

def get? (bs : Bindings) (name : String) : Option Binding := bs.list.find? (·.name == name)

/-- Whether `name` stands for something of the given kind. -/
def isKind (bs : Bindings) (kind : BindingKind) (name : String) : Bool :=
  (bs.get? name).any (·.kind == kind)

def isDroppable (bs : Bindings) (name : String) : Bool := (bs.get? name).any Binding.isDroppable

/-- Whether some reference is replaced, so that the factory is needed. -/
def needsFactory (bs : Bindings) : Bool := bs.list.any (0 < ·.replaceable)

/-- Whether some reference to a binding of the given kind is replaced. -/
def replaces (bs : Bindings) (kind : BindingKind) : Bool :=
  bs.list.any fun b => b.kind == kind && 0 < b.replaceable

/-- With one more binding, unless its name is taken. -/
def add (bs : Bindings) (kind : BindingKind) (name : String) : Bindings :=
  if (bs.get? name).isSome then bs
  else { bs with list := bs.list ++ [⟨name, kind, 0, 0⟩] }

/-! ## Imports -/

def addSpecifier (config : Config) (source : Text) (isLegacy : Bool) (bs : Bindings) (spec : Node) :
    Bindings :=
  if spec.kind != .importSpecifier || isTypeOnly spec then bs
  else
    match specifierNames? source spec with
    | none => bs
    | some (there, here) =>
      if there == config.factoryFunction then { bs with factory? := some here }
      else if isLegacy && there == config.clientExport then bs.add .client here
      else if isLegacy && there == config.accessorExport then bs.add .accessor here
      else bs

def addClausePart (config : Config) (source : Text) (isLegacy : Bool) (bs : Bindings) (part : Node) :
    Bindings :=
  match part.kind with
  | .identifier => if isLegacy then bs.add .client (part.name source) else bs
  | .namedImports => part.namedChildren.foldl (addSpecifier config source isLegacy) bs
  | _ => bs

def addStatement (config : Config) (source : Text) (bs : Bindings) (statement : Node) : Bindings :=
  if isTypeOnly statement then bs
  else
    match importSource? source statement, importClause? statement with
    | some module, some clause =>
      let isLegacy := config.legacyModules.contains module
      if isLegacy && takesNamespace clause then bs
      else clause.namedChildren.foldl (addClausePart config source isLegacy) bs
    | _, _ => bs

/-- The first quote that an import opens its module's name with. -/
def importQuote? (source : Text) (tree : Node) : Option Char :=
  (importStatements tree).findSome? fun statement =>
    (statement.child? .source).bind fun s => (s.text source).head?

def ofImports (config : Config) (source : Text) (tree : Node) : Bindings :=
  (importStatements tree).foldl (addStatement config source)
    { quote := (importQuote? source tree).getD '\'' }

end Bindings

/-! ## References -/

/-- Walks stop at imports and at names. -/
def entersForNames (n : Node) : Bool :=
  match n.kind with
  | .importStatement | .identifier | .shorthandPropertyIdentifier => false
  | _ => true

/-- The places outside imports where a name stands for a value. -/
def namePlaces (tree : Node) : List Place :=
  (tree.places entersForNames []).filter fun p =>
    p.node.kind == .identifier || p.node.kind == .shorthandPropertyIdentifier

/-- `x.verb(…)` with the place as `x`. -/
def isVerbCall (config : Config) (source : Text) (p : Place) : Bool :=
  match p.above with
  | member :: call :: _ =>
    member.kind == .memberExpression && p.node.plays .object &&
      (member.child? .property).any (fun verb => config.httpMethods.contains (verb.name source)) &&
      call.kind == .callExpression && member.plays .function
  | _ => false

/-- `f()` with the place as `f` and nothing between the parentheses. -/
def isBareCall (p : Place) : Bool :=
  match p.above with
  | call :: _ =>
    call.kind == .callExpression && p.node.plays .function &&
      (call.child? .arguments).any fun args => args.kind == .arguments && args.namedChildren.isEmpty
  | [] => false

/-- Whether a rule replaces references of this form to a binding of the kind. -/
def BindingKind.replaces (config : Config) (source : Text) (kind : BindingKind) (p : Place) : Bool :=
  p.node.kind == .identifier &&
    match kind with
    | .client => isVerbCall config source p
    | .accessor => isBareCall p

namespace Bindings

/-- The references to a name. -/
def references (source : Text) (tree : Node) (name : String) : List Place :=
  (namePlaces tree).filter fun p => p.node.name source == name && !p.isShadowed source

/-- The binding with its references counted. -/
def count (config : Config) (source : Text) (tree : Node) (b : Binding) : Binding :=
  let places := references source tree b.name
  { b with
    references := places.length
    replaceable := (places.filter (b.kind.replaces config source)).length }

/-- The legacy names of a module with their references counted. -/
def collect (config : Config) (source : Text) (tree : Node) : Bindings :=
  let bs := ofImports config source tree
  { bs with list := bs.list.map (count config source tree) }

end Bindings

end ClientMigration.Codemod
