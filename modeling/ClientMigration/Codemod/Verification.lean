/-
# Codemod.Verification -- how far a file has come

Looks at a file for signs of the unified pattern and for what is left of the
legacy one. Its status follows from which of the two there are.
-/
import ClientMigration.Codemod.Migration

namespace ClientMigration.Codemod

set_option autoImplicit false

open Script

/-- The comment that files migrated by hand carry. -/
def migrationMarker : String := "// Migrated to new API client system"

inductive Status where
  /-- Nothing legacy is left. -/
  | migrated
  /-- Both patterns are there. -/
  | mixed
  /-- Only the legacy pattern is there. -/
  | failed
  /-- The file mentions the API, but shows neither pattern. -/
  | unknown
  deriving DecidableEq, Repr

namespace Status

def name : Status → String
  | .migrated => "migrated"
  | .mixed => "partial"
  | .failed => "failed"
  | .unknown => "unknown"

def derive (hasIssues hasSuccesses mentionsApi : Bool) : Status :=
  if hasIssues then (if hasSuccesses then .mixed else .failed)
  else if !hasSuccesses && mentionsApi then .unknown
  else .migrated

end Status

structure VerificationReport where
  path : Path
  status : Status
  issues : List String
  successes : List String
  deriving DecidableEq, Repr

def VerificationReport.datum (r : VerificationReport) : Datum :=
  .record [("path", .text r.path.text), ("status", .text r.status.name), ("issues", .texts r.issues),
    ("successes", .texts r.successes)]

/-- Walks stop at imports and at literals. -/
def entersForFindings (n : Node) : Bool :=
  !(n.kind == .importStatement || n.kind == .string || n.kind == .templateString)

/-- The places that a verification looks at. -/
def findingPlaces (tree : Node) : List Place := tree.places entersForFindings []

/-- Whether a node is a call of the factory. -/
def isFactoryCall (config : Config) (bs : Bindings) (source : Text) (n : Node) : Bool :=
  n.kind == .callExpression &&
    (n.child? .function).any fun f => f.name source == bs.factory?.getD config.factoryFunction

/-- Whether a node calls the accessor, under its own name or its name in this file. -/
def callsAccessor (config : Config) (bs : Bindings) (source : Text) (n : Node) : Bool :=
  n.kind == .callExpression &&
    (n.child? .function).any fun f =>
      f.kind == .identifier &&
        (f.name source == config.accessorExport || bs.isKind .accessor (f.name source))

/-- Whether a literal begins with a version and a slash. -/
def hardcodesVersion (source : Text) (n : Node) : Bool :=
  (n.kind == .string || n.kind == .templateString) &&
    ((versionTail? ((n.text source).drop 1)).any (·.startsWith "/"))

/-- Whether a declaration of the module itself holds a client. -/
def constructsAtModuleLevel (config : Config) (bs : Bindings) (source : Text) (p : Place) : Bool :=
  (p.node.kind == .lexicalDeclaration || p.node.kind == .variableDeclaration) &&
    p.parent?.any (·.kind == .program) &&
    p.node.namedChildren.any fun d => (d.child? .value).any (isFactoryCall config bs source)

/-- The report on a file's text. -/
def verifyWith (read : Reader) (config : Config) (path : Path) (source : Text) :
    Except Failure VerificationReport :=
  match treeOf read path source with
  | .error e => .error e
  | .ok tree =>
    let bs := Bindings.collect config source tree
    let places := findingPlaces tree
    let count (f : Node → Bool) : Nat := (places.filter (f ·.node)).length
    let accessorCalls := count (callsAccessor config bs source)
    let versions := count (hardcodesVersion source)
    let successes : List String :=
      (if places.any (isFactoryCall config bs source ·.node) || bs.factory?.isSome then
        ["uses " ++ config.factoryFunction] else []) ++
      (if source.mentions migrationMarker then ["carries migration marker"] else [])
    let issues : List String :=
      (if accessorCalls > 0 then
        [config.accessorExport ++ "() still called " ++ toString accessorCalls ++ " time(s)"]
       else []) ++
      (if bs.list.any (·.kind == .client) then ["legacy client import remains"] else []) ++
      (if versions > 0 then
        [toString versions ++ " literal(s) hard-code a versioned /api prefix"] else []) ++
      (if places.any (constructsAtModuleLevel config bs source) then
        ["client constructed at module level"] else [])
    .ok ⟨path, .derive (!issues.isEmpty) (!successes.isEmpty) (source.mentions "api"), issues, successes⟩

def verify : Config → Path → Text → Except Failure VerificationReport := verifyWith Script.parse

end ClientMigration.Codemod
