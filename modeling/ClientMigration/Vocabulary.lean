/-
# Vocabulary -- the closed sets of names

Every set is an inductive type with its members' names. A name is looked up
without regard to the case of ASCII letters and to white space around it.
-/
import ClientMigration.Text.Blank
import ClientMigration.Data.Codec

namespace ClientMigration

set_option autoImplicit false

/-- A name that is in none of the closed sets it was looked up in. -/
inductive UnknownName where
  | preset (text : String)
  | stage (text : String)
  | variant (text : String)
  | method (text : String)
  deriving DecidableEq, Repr

namespace UnknownName

def message : UnknownName → String
  | .preset s => s!"unknown preset: '{s}'"
  | .stage s => s!"unknown interceptor type: '{s}'"
  | .variant s => s!"unknown client variant: '{s}'"
  | .method s => s!"unknown HTTP method: {s}"

end UnknownName

/-- Whether `text` spells `name`, whatever the case of its letters and the blanks around it. -/
def spells (text name : String) : Bool := (Text.trim text.toList).lowered == name.toList

/-- Configurations that clients are made from. -/
inductive Preset where
  | default | auth | admin | public_ | upload | batch | realtime
  deriving DecidableEq, Repr

namespace Preset

def all : List Preset := [.default, .auth, .admin, .public_, .upload, .batch, .realtime]

def name : Preset → String
  | .default => "default"
  | .auth => "auth"
  | .admin => "admin"
  | .public_ => "public"
  | .upload => "upload"
  | .batch => "batch"
  | .realtime => "realtime"

def ofName (text : String) : Except UnknownName Preset :=
  match all.find? (spells text ·.name) with
  | some p => .ok p
  | none => .error (.preset text)

def codec : Codec Preset := .member all name

end Preset

/-- Ways in which a client can be constructed. -/
inductive Variant where
  /-- The shared client, whose callers write the version into their paths. -/
  | legacy
  /-- The client made from a preset, whose base address carries the version. -/
  | unified
  deriving DecidableEq, Repr

namespace Variant

def all : List Variant := [.legacy, .unified]

def name : Variant → String
  | .legacy => "legacy"
  | .unified => "unified"

/-- The variant that serves a call for which the decision was `useNew`. -/
def ofDecision (useNew : Bool) : Variant := if useNew then .unified else .legacy

/-- `old` and `new` are further names of the two. -/
def ofName (text : String) : Except UnknownName Variant :=
  if spells text "legacy" || spells text "old" then .ok .legacy
  else if spells text "unified" || spells text "new" then .ok .unified
  else .error (.variant text)

end Variant

/-- Categories of stages that a request passes through. -/
inductive Stage where
  | logging | auth | custom | retry | error
  deriving DecidableEq, Repr

namespace Stage

/-- Every category, in the order of their default ranks. -/
def all : List Stage := [.logging, .auth, .custom, .retry, .error]

def name : Stage → String
  | .logging => "logging"
  | .auth => "auth"
  | .custom => "custom"
  | .retry => "retry"
  | .error => "error"

/-- Position in `all`. -/
def index : Stage → Nat
  | .logging => 0
  | .auth => 1
  | .custom => 2
  | .retry => 3
  | .error => 4

def ofName (text : String) : Except UnknownName Stage :=
  match all.find? (spells text ·.name) with
  | some k => .ok k
  | none => .error (.stage text)

def codec : Codec Stage := .member all name

end Stage

/-- Methods of HTTP requests. -/
inductive Method where
  | get | post | put | patch | delete | head | options
  deriving DecidableEq, Repr

namespace Method

def all : List Method := [.get, .post, .put, .patch, .delete, .head, .options]

def name : Method → String
  | .get => "GET"
  | .post => "POST"
  | .put => "PUT"
  | .patch => "PATCH"
  | .delete => "DELETE"
  | .head => "HEAD"
  | .options => "OPTIONS"

/-- A method by its name; an error names the text in upper case and without blanks. -/
def ofName (text : String) : Except UnknownName Method :=
  let spelled := String.ofList (Text.trim text.toList).capitalized
  match all.find? (·.name == spelled) with
  | some m => .ok m
  | none => .error (.method spelled)

def codec : Codec Method := .member all name

end Method

end ClientMigration
