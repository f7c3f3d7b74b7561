/-
# Codemod.Migration -- migrating one file

Six rules run in a fixed order on the text of a file. Each proposes edits for
the text as the rules before it left it; a rule that changes the text is
followed by a new reading of it, and a text that no longer reads is an error of
the rule. Test files are not touched, nor even read.

The reader of the text is an argument. `Script.parse` is the one to use.
-/
import ClientMigration.Codemod.Subject
import ClientMigration.Codemod.ImportEdits
import ClientMigration.Codemod.CallEdits
import ClientMigration.Codemod.PathEdits
import ClientMigration.Script.Fault

namespace ClientMigration.Codemod

set_option autoImplicit false

open Script

inductive Rule where
  | defaultImport
  | namedImport
  | callSites
  | authAccessor
  | versionPrefix
  | errorImport
  deriving DecidableEq, Repr

namespace Rule

/-- The rules in the order in which they run. -/
def all : List Rule :=
  [.defaultImport, .namedImport, .callSites, .authAccessor, .versionPrefix, .errorImport]

def name : Rule → String
  | .defaultImport => "default-import"
  | .namedImport => "named-import"
  | .callSites => "call-sites"
  | .authAccessor => "auth-accessor"
  | .versionPrefix => "version-prefix"
  | .errorImport => "error-import"

/-- What the rule wants changed in a text and its tree. -/
def edits (s : Setting) (tree : Node) (source : Text) : Rule → List Edit
  | .defaultImport => defaultImportEdits s tree source
  | .namedImport => namedImportEdits s tree source
  | .callSites => callSiteEdits s tree source
  | .authAccessor => accessorEdits s tree source
  | .versionPrefix => pathEdits s.config tree source
  | .errorImport => errorImportEdits s tree source

end Rule

/-- Why a file could not be migrated or looked at. -/
inductive Failure where
  | unreadable (path : Path) (line column : Nat) (lacking : Option String)
  /-- Two edits of a rule overlap at an offset. -/
  | overlap (rule : String) (offset : Nat)
  /-- An edit of a rule lies outside the text. -/
  | outside (rule : String)
  /-- What a rule made of the text no longer reads. -/
  | invalidOutput (rule : String) (path : Path)
  deriving DecidableEq, Repr

namespace Failure

/-- What stands at the place of an error of the grammar. -/
def finding : Option String → String
  | none => "unexpected token"
  | some kind => "missing " ++ kind

def message : Failure → String
  | .unreadable path line column lacking =>
    "syntax error in " ++ path.text ++ " at " ++ toString line ++ ":" ++ toString column ++ ": " ++
      finding lacking
  | .overlap rule offset =>
    "rule '" ++ rule ++ "' produced overlapping edits at byte " ++ toString offset
  | .outside rule => "rule '" ++ rule ++ "' produced edits outside the text"
  | .invalidOutput rule path => "rule '" ++ rule ++ "' produced invalid syntax in " ++ path.text

/-- Whether the file itself is at fault. -/
def isUnreadable : Failure → Bool
  | .unreadable .. => true
  | _ => false

def ofEdit (rule : String) : Edit.Error → Failure
  | .overlap offset => .overlap rule offset
  | .outside => .outside rule

end Failure

/-- Reads a text into a syntax tree; the flag is for embedded markup. -/
abbrev Reader := Bool → Text → Except SyntaxError Node

/-- The line and the column, both from one, at which an offset lies. -/
def lineAndColumn (source : Text) (offset : Nat) : Nat × Nat :=
  let front := source.slice 0 offset
  (front.count '\n' + 1, Text.bytes (Text.lastLine front) + 1)

def treeOf (read : Reader) (path : Path) (source : Text) : Except Failure Node :=
  match read (hasMarkup path) source with
  | .ok tree => .ok tree
  | .error e =>
    let (line, column) := lineAndColumn source e.offset
    .error (.unreadable path line column e.lacking)

/-- A text on its way through the rules. -/
structure Draft where
  text : Text
  tree : Node
  /-- The rules that changed it. -/
  applied : List Rule := []

/-- The draft after one more rule. -/
def Draft.step (read : Reader) (path : Path) (s : Setting) (d : Draft) (rule : Rule) :
    Except Failure Draft :=
  match rule.edits s d.tree d.text with
  | [] => .ok d
  | edits =>
    match Edit.apply d.text edits with
    | .error e => .error (.ofEdit rule.name e)
    | .ok text =>
      if text == d.text then .ok d
      else
        match read (hasMarkup path) text with
        | .error _ => .error (.invalidOutput rule.name path)
        | .ok tree => .ok ⟨text, tree, d.applied ++ [rule]⟩

/-- The outcome for one file. -/
structure Outcome where
  changed : Bool
  source : Text
  applied : List Rule
  preset : Preset
  role : FileRole
  deriving DecidableEq, Repr

/-- Migrates the text of a file. -/
def migrateWith (read : Reader) (config : Config) (path : Path) (source : Text) :
    Except Failure Outcome :=
  let preset := detectPreset path source config.defaultPreset
  let role := FileRole.ofPath path
  if isTestPath path then .ok ⟨false, source, [], preset, role⟩
  else
    match treeOf read path source with
    | .error e => .error e
    | .ok tree =>
      let s : Setting := ⟨config, preset, .collect config source tree⟩
      match Rule.all.foldlM (Draft.step read path s) ⟨source, tree, []⟩ with
      | .error e => .error e
      | .ok d => .ok ⟨d.text != source, d.text, d.applied, preset, role⟩

def migrate : Config → Path → Text → Except Failure Outcome := migrateWith Script.parse

end ClientMigration.Codemod
