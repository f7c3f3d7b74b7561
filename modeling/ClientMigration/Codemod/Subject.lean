/-
# Codemod.Subject -- what a file is, before its code is read

Roles, tests and dialects follow from the path alone. The preset follows from
the directories on the path, else from what the text mentions, else it is the
configured one.
-/
import ClientMigration.Text.Uppercase
import ClientMigration.Path
import ClientMigration.Codemod.Config
import ClientMigration.Codemod.VersionPrefix

namespace ClientMigration.Codemod

set_option autoImplicit false

/-- The part a file plays in its code base. -/
inductive FileRole where
  | hook
  | component
  | apiModule
  deriving DecidableEq, Repr

namespace FileRole

def name : FileRole → String
  | .hook => "hook"
  | .component => "component"
  | .apiModule => "api_module"

/-- A file named `use` and a capital is a hook; one with markup is a component. -/
def ofPath (p : Path) : FileRole :=
  let stem : Text := (p.stem?.getD "").toList
  if ((stem.after? "use").bind List.head?).any Text.isUppercase then .hook
  else if p.ending?.any ["tsx", "jsx"].contains then .component
  else .apiModule

end FileRole

/-- Whether the grammar for files of this name has embedded markup. -/
def hasMarkup (p : Path) : Bool := p.ending?.any ["tsx", "jsx", "js", "mjs", "cjs"].contains

/-- Whether files of this name are source files. -/
def isCandidate (p : Path) : Bool :=
  p.ending?.any ["ts", "tsx", "js", "jsx", "mts", "cts", "mjs", "cjs"].contains

/-- Whether a file is a test, a mock or an end-to-end script. -/
def isTestPath (p : Path) : Bool :=
  p.names.any ["__tests__", "__mocks__", "e2e"].contains ||
    p.fileName?.any fun n => Text.mentions n.toList ".test." || Text.mentions n.toList ".spec."

/-! ## Presets -/

/-- The presets that a directory may name, the strongest first. -/
def pathPresets : List Preset := [.admin, .auth, .upload, .batch, .public_]

/-- A directory's name without the parentheses of a route group, in lower case. -/
def bareSegment (s : String) : Text :=
  Text.lowered ((s.toList.dropWhile (· == '(')).reverse.dropWhile (· == ')')).reverse

def presetOfPath? (p : Path) : Option Preset :=
  let segments := p.directories.map bareSegment
  pathPresets.find? fun preset => segments.any (· == preset.name.toList)

/-- Whether a versioned path with the route `segment` next occurs in a text. -/
def mentionsRoute (source : Text) (segment : String) : Bool :=
  (source.occurrences "/api/v").any fun at_ =>
    ((versionTail? at_).bind (·.after? "/")).any (·.startsWith segment)

/-- Whether a text sets `withCredentials` to false. -/
def disablesCredentials (source : Text) : Bool :=
  (source.occurrences "withCredentials").any fun at_ =>
    ((Text.trimLeft (at_.drop "withCredentials".length)).after? ":").any fun value =>
      value.trimLeft.startsWith "false"

def presetOfText? (source : Text) : Option Preset :=
  if source.mentions "multipart/form-data" then some .upload
  else if mentionsRoute source "admin" then some .admin
  else if mentionsRoute source "auth" then some .auth
  else if disablesCredentials source then some .public_
  else none

/-- The preset for a file: by its directories, by its text, or else `fallback`. -/
def detectPreset (p : Path) (source : Text) (fallback : Preset) : Preset :=
  ((presetOfPath? p).orElse fun _ => presetOfText? source).getD fallback

end ClientMigration.Codemod
