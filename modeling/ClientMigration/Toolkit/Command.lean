/-
# Toolkit.Command -- what the toolkit can be told to do

The commands with their options, as a specification of command lines and as a type
that a command line is read into.
-/
import ClientMigration.Path
import ClientMigration.Pipeline.Request
import ClientMigration.Toolkit.Arguments

namespace ClientMigration

set_option autoImplicit false

inductive Command where
  | migrate (roots : List Path) (write json : Bool)
  | analyze (roots : List Path)
  | verify (roots : List Path) (json : Bool)
  | rolloutStatus (json : Bool)
  | rolloutDecide (paths : List String)
  | rolloutCompare (preset : Preset) (path : String)
  | stageOrder (stages : List Stage)
  | stageCheck (request : Request)
  deriving DecidableEq, Repr

/-- A command, and the configuration file it is to be carried out under. -/
structure Invocation where
  config : Option Path
  command : Command
  deriving DecidableEq, Repr

namespace Command

open Arguments

def anything (_ : String) : Bool := true

def nonempty (v : String) : Bool := !v.isEmpty

def presetOf? (v : String) : Option Preset := (Preset.ofName v).toOption
def stageOf? (v : String) : Option Stage := (Stage.ofName v).toOption
def methodOf? (v : String) : Option Method := (Method.ofName v).toOption

/-- The options that every command takes. -/
def common : List OptionSpec :=
  [{ long := "config", short := some 'c', value := some nonempty },
   { long := "verbose", short := some 'v' }]

def json : OptionSpec := { long := "json" }

/-- Files and directories, one at least. -/
def roots : ValuesSpec := ⟨true, true, nonempty⟩

/-- A command that takes values. -/
def leaf (name : String) (options : List OptionSpec) (values : Option ValuesSpec) : Spec :=
  .mk name false (options ++ common) values []

/-- A command with commands below it. -/
def group (name : String) (below : List Spec) : Spec := .mk name false common none below

def spec : Spec :=
  .mk "apimig" true common none
    [leaf "migrate" [{ long := "write" }, json] (some roots),
     leaf "analyze" [] (some roots),
     leaf "verify" [json] (some roots),
     group "rollout"
       [leaf "status" [json] none,
        leaf "decide" [] (some ⟨false, true, anything⟩),
        leaf "compare" [{ long := "preset", value := some fun v => (presetOf? v).isSome }]
          (some ⟨true, false, anything⟩)],
     group "interceptors"
       [leaf "order" [] (some ⟨false, true, fun v => (stageOf? v).isSome⟩),
        leaf "check"
          [{ long := "method", value := some fun v => (methodOf? v).isSome },
           { long := "cached" }, { long := "success" }]
          (some ⟨true, false, anything⟩)]]

/-- The command that a command line names. -/
def ofParsed? (p : Parsed) : Option Command :=
  let paths := p.values.map Path.mk
  match p.command with
  | ["migrate"] => some (.migrate paths (p.hasFlag "write") (p.hasFlag "json"))
  | ["analyze"] => some (.analyze paths)
  | ["verify"] => some (.verify paths (p.hasFlag "json"))
  | ["rollout", "status"] => some (.rolloutStatus (p.hasFlag "json"))
  | ["rollout", "decide"] => some (.rolloutDecide p.values)
  | ["rollout", "compare"] =>
    some (.rolloutCompare (((p.setting? "preset").bind presetOf?).getD .default)
      (p.values.headD "/"))
  | ["interceptors", "order"] => some (.stageOrder (p.values.filterMap stageOf?))
  | ["interceptors", "check"] =>
    some (.stageCheck
      { isCached := p.hasFlag "cached"
        isSuccess := p.hasFlag "success"
        method := ((p.setting? "method").bind methodOf?).getD .get
        url := p.values.headD "/" })
  | _ => none

end Command

/-- Reads a command line. -/
def Invocation.ofArguments (args : List String) : Except Arguments.Refusal Invocation :=
  match Arguments.read Command.spec args with
  | .error e => .error e
  | .ok p =>
    match Command.ofParsed? p with
    | some command => .ok ⟨(p.setting? "config").map Path.mk, command⟩
    | none => .error .usage

end ClientMigration
