/-
# Codemod.Usage -- how a file uses the legacy client

An inventory of one file: its imports by form, the calls through legacy names by
verb, the preset that a migration would take, and what a migration cannot mend.
-/
import ClientMigration.Codemod.Migration

namespace ClientMigration.Codemod

set_option autoImplicit false

open Script

structure UsageReport where
  path : Path
  isTest : Bool
  role : FileRole
  defaultImports : Nat := 0
  namedImports : Nat := 0
  accessorImports : Nat := 0
  /-- Imports from below the unified module. -/
  submoduleImports : Nat := 0
  factoryImports : Nat := 0
  /-- Calls through legacy names by verb, in the order of the verbs. -/
  verbCalls : List (String × Nat) := []
  preset : Preset
  needsMigration : Bool := false
  warnings : List String := []
  deriving DecidableEq, Repr

namespace UsageReport

def totalCalls (r : UsageReport) : Nat := r.verbCalls.foldl (fun n e => n + e.2) 0

def datum (r : UsageReport) : Datum :=
  .record
    [("path", .text r.path.text), ("is_test", .boolean r.isTest), ("role", .text r.role.name),
     ("default_imports", .whole r.defaultImports), ("named_imports", .whole r.namedImports),
     ("accessor_imports", .whole r.accessorImports),
     ("submodule_imports", .whole r.submoduleImports),
     ("factory_imports", .whole r.factoryImports),
     ("verb_calls", .record (r.verbCalls.map fun e => (e.1, .whole e.2))),
     ("preset", .text r.preset.name), ("needs_migration", .boolean r.needsMigration),
     ("warnings", .texts r.warnings)]

/-! ## Table rows -/

def csvHeader : String :=
  "path,role,preset,default_imports,named_imports,accessor_imports,submodule_imports," ++
    "factory_imports,calls,needs_migration,warnings"

/-- A field in quotes if it has a comma, a quote or a line feed, each quote written twice. -/
def csvField (t : Text) : Text :=
  if t.any fun c => c == ',' || c == '"' || c == '\n' then
    '"' :: t.flatMap (fun c => if c == '"' then ['"', '"'] else [c]) ++ ['"']
  else t

def csvFields (r : UsageReport) : List Text :=
  [r.path.text.toList, r.role.name.toList, r.preset.name.toList,
   (toString r.defaultImports).toList, (toString r.namedImports).toList,
   (toString r.accessorImports).toList, (toString r.submoduleImports).toList,
   (toString r.factoryImports).toList, (toString r.totalCalls).toList,
   (if r.needsMigration then "true" else "false").toList,
   ("; ".intercalate r.warnings).toList]

def csvRow (r : UsageReport) : Text := [','].intercalate (r.csvFields.map csvField)

end UsageReport

/-! ## Imports -/

/-- Imports counted by what they take. -/
structure ImportCount where
  defaults : Nat := 0
  clients : Nat := 0
  accessors : Nat := 0
  submodules : Nat := 0
  factories : Nat := 0
  /-- Imports from modules of error helpers. -/
  deprecated : Nat := 0

namespace ImportCount

def addSpecifier (config : Config) (source : Text) (isLegacy : Bool) (c : ImportCount)
    (spec : Node) : ImportCount :=
  match specifierNames? source spec with
  | none => c
  | some (there, _) =>
    if there == config.factoryFunction then { c with factories := c.factories + 1 }
    else if isLegacy && there == config.clientExport then { c with clients := c.clients + 1 }
    else if isLegacy && there == config.accessorExport then { c with accessors := c.accessors + 1 }
    else c

def addClausePart (config : Config) (source : Text) (isLegacy : Bool) (c : ImportCount)
    (part : Node) : ImportCount :=
  match part.kind with
  | .identifier => if isLegacy then { c with defaults := c.defaults + 1 } else c
  | .namedImports => part.namedChildren.foldl (addSpecifier config source isLegacy) c
  | _ => c

def addStatement (config : Config) (source : Text) (c : ImportCount) (statement : Node) :
    ImportCount :=
  if isTypeOnly statement then c
  else
    match importSource? source statement with
    | none => c
    | some module =>
      let isLegacy := config.legacyModules.contains module
      let c := if config.deprecatedErrorModules.contains module then
        { c with deprecated := c.deprecated + 1 } else c
      let c := if !isLegacy && Text.startsWith module.toList (config.unifiedModule ++ "/") then
        { c with submodules := c.submodules + 1 } else c
      match importClause? statement with
      | none => c
      | some clause => clause.namedChildren.foldl (addClausePart config source isLegacy) c

end ImportCount

/-! ## Members -/

/-- What the report says about one member of something. -/
inductive Sighting where
  | warning (text : String)
  | call (verb : String)
  | nothing

/-- Whether a value is an unshadowed legacy client. -/
def isThroughClient (bs : Bindings) (source : Text) (p : Place) : Bool :=
  p.node.kind == .identifier && bs.isKind .client (p.node.name source) && !p.isShadowed source

/-- Whether a value is what an unshadowed accessor gives. -/
def isThroughAccessor (bs : Bindings) (source : Text) (p : Place) : Bool :=
  p.node.kind == .callExpression &&
    (p.node.child? .function).any fun f =>
      bs.isKind .accessor (f.name source) && !(Place.mk f (p.node :: p.above)).isShadowed source

def sighting (config : Config) (bs : Bindings) (source : Text) (p : Place) : Sighting :=
  match p.node.child? .object, p.node.child? .property with
  | some object, some property =>
    let verb := property.name source
    if object.name source == "axios" && verb == "create" then
      .warning "constructs a transport directly with axios.create"
    else
      let inside : Place := ⟨object, p.node :: p.above⟩
      let client := isThroughClient bs source inside
      if client && verb == "defaults" then .warning "mutates legacy client defaults"
      else if (p.parent?.any (·.kind == .callExpression) && p.node.plays .function) &&
        (client || isThroughAccessor bs source inside) && config.httpMethods.contains verb then
        .call verb
      else .nothing
  | _, _ => .nothing

/-- The statements and members that a report is made from: all but what is inside imports. -/
def usagePlaces (tree : Node) : List Place :=
  tree.places (fun n => n.kind != .importStatement) []

/-- One more under `key`, in a list ordered by its keys. -/
def countUp (key : String) : List (String × Nat) → List (String × Nat)
  | [] => [(key, 1)]
  | (k, n) :: rest =>
    if key == k then (k, n + 1) :: rest
    else if key < k then (key, 1) :: (k, n) :: rest
    else (k, n) :: countUp key rest

def UsageReport.see (r : UsageReport) : Sighting → UsageReport
  | .warning text => if r.warnings.contains text then r else { r with warnings := r.warnings ++ [text] }
  | .call verb => { r with verbCalls := countUp verb r.verbCalls }
  | .nothing => r

/-- The report on a file's text. -/
def analyzeWith (read : Reader) (config : Config) (path : Path) (source : Text) :
    Except Failure UsageReport :=
  let blank : UsageReport :=
    { path, isTest := isTestPath path, role := .ofPath path
      preset := detectPreset path source config.defaultPreset }
  if isTestPath path then .ok blank
  else
    match treeOf read path source with
    | .error e => .error e
    | .ok tree =>
      let bs := Bindings.collect config source tree
      let places := usagePlaces tree
      let c := ((places.filter (·.node.kind == .importStatement)).map Place.node).foldl
        (ImportCount.addStatement config source) {}
      let sightings := (places.filter (·.node.kind == .memberExpression)).map
        (sighting config bs source)
      .ok
        { sightings.foldl UsageReport.see blank with
          defaultImports := c.defaults
          namedImports := c.clients
          accessorImports := c.accessors
          submoduleImports := c.submodules
          factoryImports := c.factories
          needsMigration := c.defaults + c.clients + c.accessors + c.deprecated > 0 }

def analyze : Config → Path → Text → Except Failure UsageReport := analyzeWith Script.parse

end ClientMigration.Codemod
