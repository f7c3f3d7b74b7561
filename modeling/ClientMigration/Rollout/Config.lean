/-
# Rollout.Config -- who gets the unified client

A switch, a percentage, and lists of path beginnings that get the unified client
or do not. A percentage out of range is brought into it and never refused.

Environment variables overlay a configuration field by field. A variable that
cannot be read leaves its field alone.
-/
import ClientMigration.Text.Blank
import ClientMigration.Data.Codec

namespace ClientMigration

set_option autoImplicit false

/-- The nearest percentage to a number. -/
def clampPercentage (value : Int) : Nat := (min (max value 0) 100).toNat

structure RolloutConfig where
  enabled : Bool := false
  percentage : Nat := 0
  enabledPaths : List String := []
  disabledPaths : List String := []
  debugMode : Bool := true
  deriving DecidableEq, Repr

namespace RolloutConfig

/-- With the percentage in range. -/
def normalized (c : RolloutConfig) : RolloutConfig :=
  { c with percentage := clampPercentage c.percentage }

/-- Percentages are written as whole numbers of 64 bits. -/
def percentageCodec : Codec Nat where
  read
    | .whole n => if Datum.fitsWord n then some (clampPercentage n) else none
    | _ => none
  write n := .whole n

def fields : List (Field RolloutConfig) :=
  [.of .boolean "enabled" enabled fun v c => { c with enabled := v },
   .of percentageCodec "rollout_percentage" percentage fun v c => { c with percentage := v },
   .of (.list .text) "enabled_paths" enabledPaths fun v c => { c with enabledPaths := v },
   .of (.list .text) "disabled_paths" disabledPaths fun v c => { c with disabledPaths := v },
   .of .boolean "debug_mode" debugMode fun v c => { c with debugMode := v }]

def codec : Codec RolloutConfig := .settings fields {}

end RolloutConfig

/-! ## Environment -/

namespace Environment

/-- The value of each variable that is set. -/
abbrev Variables := String → Option String

/-- A truth value by one of its words. -/
def truth? (raw : String) : Option Bool :=
  let word := String.ofList (Text.trim raw.toList).lowered
  if ["1", "true", "yes", "on"].contains word then some true
  else if ["0", "false", "no", "off", ""].contains word then some false
  else none

/-- The number that digits with or without a sign write, if it has 64 bits. -/
def integer? (raw : String) : Option Int :=
  let t := Text.trim raw.toList
  let (negative, digits) : Bool × Text :=
    match t with
    | '-' :: r => (true, r)
    | '+' :: r => (false, r)
    | _ => (false, t)
  if digits.isEmpty || !digits.all Char.isDigit then none
  else
    let n : Int := digits.foldl (fun n c => n * 10 + (c.toNat - '0'.toNat)) 0
    let value := if negative then -n else n
    if Datum.fitsWord value then some value else none

/-- The pieces of a text between commas. -/
def pieces : Text → List Text
  | [] => [[]]
  | c :: t =>
    if c == ',' then [] :: pieces t
    else match pieces t with
      | [] => [[c]]
      | p :: ps => (c :: p) :: ps

/-- The entries of a list with commas between them, trimmed, without the empty ones. -/
def paths (raw : String) : List String :=
  ((pieces raw.toList).map Text.trim).filterMap fun p =>
    if p.isEmpty then none else some (String.ofList p)

def useNewClient : String := "APIMIG_USE_NEW_CLIENT"
def rolloutPercentage : String := "APIMIG_ROLLOUT_PERCENTAGE"
def enabledPaths : String := "APIMIG_ENABLED_PATHS"
def disabledPaths : String := "APIMIG_DISABLED_PATHS"
def debug : String := "APIMIG_DEBUG"

/-- Every variable that is looked at. -/
def names : List String := [useNewClient, rolloutPercentage, enabledPaths, disabledPaths, debug]

end Environment

/-- The configuration with what the environment says in place of its own. -/
def RolloutConfig.merge (c : RolloutConfig) (env : Environment.Variables) : RolloutConfig :=
  { enabled := ((env Environment.useNewClient).bind Environment.truth?).getD c.enabled
    percentage :=
      (((env Environment.rolloutPercentage).bind Environment.integer?).map clampPercentage).getD
        c.percentage
    enabledPaths := ((env Environment.enabledPaths).map Environment.paths).getD c.enabledPaths
    disabledPaths := ((env Environment.disabledPaths).map Environment.paths).getD c.disabledPaths
    debugMode := ((env Environment.debug).bind Environment.truth?).getD c.debugMode }

end ClientMigration
