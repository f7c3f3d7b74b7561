/-
# Toolkit.Arguments -- reading a command line

A command line names a command, its options and its values. Arguments are read from
the left, and the first one that does not fit, or that asks for help, ends the
reading. Behind two dashes everything is a value.
-/
import ClientMigration.Text.Basic

namespace ClientMigration.Arguments

set_option autoImplicit false

/-- An option of a command. -/
structure OptionSpec where
  long : String
  short : Option Char := none
  /-- What the option's value has to be; none if the option takes no value. -/
  value : Option (String → Bool) := none

/-- The values of a command that are no options. -/
structure ValuesSpec where
  /-- Whether one value at least is needed. -/
  required : Bool
  /-- Whether more than one may be given. -/
  many : Bool
  accepts : String → Bool

/-- A command with its options, and either values or commands below it. -/
inductive Spec where
  | mk (name : String) (hasVersion : Bool) (options : List OptionSpec) (values : Option ValuesSpec)
      (below : List Spec)

namespace Spec

def name : Spec → String
  | .mk n _ _ _ _ => n

def hasVersion : Spec → Bool
  | .mk _ v _ _ _ => v

def options : Spec → List OptionSpec
  | .mk _ _ os _ _ => os

def values : Spec → Option ValuesSpec
  | .mk _ _ _ vs _ => vs

def children : Spec → List Spec
  | .mk _ _ _ _ cs => cs

def child? (s : Spec) (name : String) : Option Spec := s.children.find? (·.name == name)

end Spec

/-- A line for each command that can be given, with its options. -/
def Spec.synopsis : Spec → List String
  | .mk name _ options values below =>
    let flags := String.join (options.map fun o => " [--" ++ o.long ++ "]")
    match below with
    | [] => [name ++ flags ++ (if values.isSome then " [VALUES]" else "")]
    | c :: cs => (Spec.synopsis c ++ synopses cs).map fun line => name ++ " " ++ line
where
  synopses : List Spec → List String
    | [] => []
    | c :: cs => Spec.synopsis c ++ synopses cs

/-- Why a command line is not carried out. -/
inductive Refusal where
  /-- It does not fit the commands there are. -/
  | usage
  /-- It asks for help, or for the version. -/
  | help
  deriving DecidableEq, Repr

/-- What a command line says. -/
structure Parsed where
  /-- The names of the commands from the outermost in. -/
  command : List String := []
  flags : List String := []
  /-- Options with their values, the latest last. -/
  settings : List (String × String) := []
  values : List String := []
  deriving DecidableEq, Repr

namespace Parsed

def setting? (p : Parsed) (long : String) : Option String :=
  ((p.settings.filter (·.1 == long)).map Prod.snd).getLast?

def hasFlag (p : Parsed) (long : String) : Bool := p.flags.contains long

end Parsed

/-- Where the reading stands: the command that takes the next argument, and the options given to it. -/
structure State where
  spec : Spec
  seen : List String := []
  parsed : Parsed := {}

namespace State

/-- Takes a value that is no option. -/
def addValue (s : State) (v : String) : Except Refusal State :=
  match s.spec.values with
  | none => .error .usage
  | some spec =>
    if spec.accepts v && (spec.many || s.parsed.values.isEmpty) then
      .ok { s with parsed := { s.parsed with values := s.parsed.values ++ [v] } }
    else .error .usage

/-- Takes an option without a value. -/
def addFlag (s : State) (o : OptionSpec) : Except Refusal State :=
  if s.seen.contains o.long then .error .usage
  else
    .ok { s with
      seen := o.long :: s.seen
      parsed := { s.parsed with flags := s.parsed.flags ++ [o.long] } }

/-- Takes an option with its value. -/
def addSetting (s : State) (o : OptionSpec) (v : String) : Except Refusal State :=
  if s.seen.contains o.long || !(o.value.any (· v)) then .error .usage
  else
    .ok { s with
      seen := o.long :: s.seen
      parsed := { s.parsed with settings := s.parsed.settings ++ [(o.long, v)] } }

/-- What the end of the command line leaves. -/
def finish (s : State) : Except Refusal Parsed :=
  let lacksCommand := !s.spec.children.isEmpty
  let lacksValue := s.spec.values.any (·.required) && s.parsed.values.isEmpty
  if lacksCommand || lacksValue then .error .usage else .ok s.parsed

end State

/-- What an option leaves to be done. -/
inductive Step where
  | done (s : State)
  /-- The next argument is the option's value. -/
  | needsValue (s : State) (o : OptionSpec)

/-- The word that asks for help on the commands below one. -/
def helpWord : String := "help"

/-- Whether names lead from a command down, the word for help being one where there are commands. -/
def leadsDown : Spec → List String → Bool
  | _, [] => true
  | s, n :: ns =>
    match s.child? n with
    | some c => leadsDown c ns
    | none => n == helpWord && !s.children.isEmpty && ns.isEmpty

/-- An option by its long name, with what stands behind an equals sign. -/
def readLong (s : State) (long : String) (attached : Option String) : Except Refusal Step :=
  match s.spec.options.find? (·.long == long) with
  | some o =>
    match o.value, attached with
    | none, none => (s.addFlag o).map .done
    | none, some _ => .error .usage
    | some _, some v => (s.addSetting o v).map .done
    | some _, none => if s.seen.contains long then .error .usage else .ok (.needsValue s o)
  | none =>
    if attached.isNone && (long == helpWord || (long == "version" && s.spec.hasVersion)) then
      .error .help
    else .error .usage

/-- Options by their letters. What follows a letter whose option takes a value is that value. -/
def readShort (s : State) : Text → Except Refusal Step
  | [] => .ok (.done s)
  | c :: rest =>
    match s.spec.options.find? (·.short == some c) with
    | some o =>
      match o.value, rest with
      | none, '=' :: _ => .error .usage
      | none, rest =>
        match s.addFlag o with
        | .ok s => readShort s rest
        | .error e => .error e
      | some _, [] => if s.seen.contains o.long then .error .usage else .ok (.needsValue s o)
      | some _, '=' :: v => (s.addSetting o (String.ofList v)).map .done
      | some _, v => (s.addSetting o (String.ofList v)).map .done
    | none =>
      if rest.head? != some '=' && (c == 'h' || (c == 'V' && s.spec.hasVersion)) then .error .help
      else .error .usage

/-- An argument before and behind its first equals sign. -/
def splitAtEquals (t : Text) : String × Option String :=
  let front := t.takeWhile (· != '=')
  match t.drop front.length with
  | [] => (String.ofList front, none)
  | _ :: v => (String.ofList front, some (String.ofList v))

/-- Whether an argument looks like an option. -/
def isOption (arg : String) : Bool :=
  match arg.toList with
  | '-' :: _ :: _ => true
  | _ => false

/-- Reads the arguments that are left. `onlyValues` tells that two dashes were read, and `waiting` is an
option that takes the next argument as its value. -/
def readFrom (onlyValues : Bool) (waiting : Option OptionSpec) (s : State) :
    List String → Except Refusal Parsed
  | [] => if waiting.isSome then .error .usage else s.finish
  | arg :: args =>
    match waiting with
    | some o =>
      if isOption arg then .error .usage
      else
        match s.addSetting o arg with
        | .ok s => readFrom onlyValues none s args
        | .error e => .error e
    | none =>
      if onlyValues then
        match s.addValue arg with
        | .ok s => readFrom onlyValues none s args
        | .error e => .error e
      else
        match s.spec.child? arg with
        | some c =>
          readFrom false none
            { spec := c, parsed := { s.parsed with command := s.parsed.command ++ [arg] } } args
        | none =>
          if arg == helpWord && !s.spec.children.isEmpty then
            .error (if leadsDown s.spec args then .help else .usage)
          else if arg == "--" then readFrom true none s args
          else
            let step : Except Refusal Step :=
              match arg.toList with
              | '-' :: '-' :: long =>
                let (name, attached) := splitAtEquals long
                readLong s name attached
              | '-' :: c :: rest => readShort s (c :: rest)
              | _ => (s.addValue arg).map .done
            match step with
            | .ok (.done s) => readFrom false none s args
            | .ok (.needsValue s o) => readFrom false (some o) s args
            | .error e => .error e

/-- What the arguments of a program say. No arguments at all are too few. -/
def read (spec : Spec) (args : List String) : Except Refusal Parsed :=
  readFrom false none { spec } args

end ClientMigration.Arguments
