/-
# Rollout.Controller -- which client serves a path

The first rule that applies decides:

1. an override of exactly this path;
2. the switch is off: the legacy client;
3. the path begins with a denied one: the legacy client;
4. some allowed path is configured: the unified client for paths that begin with
   one of them, and for no other;
5. the percentage is strictly between 0 and 100: the unified client for buckets
   below it;
6. otherwise the unified client at 100 percent.

Only the fifth rule asks for the assignment of the installation.
-/
import ClientMigration.Rollout.Config
import ClientMigration.Rollout.Assignment

namespace ClientMigration

set_option autoImplicit false

/-- The rule that decided. -/
inductive Reason where
  | override
  | disabled
  | deniedPath
  | allowedPath
  | notAllowListed
  | bucket (bucket percentage : Nat)
  | percentage (percentage : Nat)
  deriving DecidableEq, Repr

namespace Reason

def name : Reason → String
  | .override => "override"
  | .disabled => "disabled"
  | .deniedPath => "denied_path"
  | .allowedPath => "allowed_path"
  | .notAllowListed => "not_allow_listed"
  | .bucket .. => "bucket"
  | .percentage _ => "percentage"

def text : Reason → String
  | .override => "explicit override"
  | .disabled => "rollout disabled"
  | .deniedPath => "path is deny-listed"
  | .allowedPath => "path is allow-listed"
  | .notAllowListed => "path is not allow-listed"
  | .bucket b p => "bucket " ++ toString b ++ " against " ++ toString p ++ "% rollout"
  | .percentage p => toString p ++ "% rollout"

def datum (r : Reason) : Datum :=
  .record (("rule", .text r.name) ::
    match r with
    | .bucket b p => [("bucket", .whole b), ("percentage", .whole p)]
    | .percentage p => [("percentage", .whole p)]
    | _ => [])

end Reason

structure Decision where
  useNew : Bool
  reason : Reason
  deriving DecidableEq, Repr

namespace Decision

/-- The word for the client decided on. -/
def word (d : Decision) : String := if d.useNew then "new" else "old"

def datum (d : Decision) : Datum :=
  .record [("use_new", .boolean d.useNew), ("reason", d.reason.datum)]

end Decision

structure Controller (σ : Type) where
  config : RolloutConfig
  overrides : Table Bool := []
  assigner : Assigner σ

namespace Controller

variable {σ : Type}

/-- A controller's percentage is in range from the start. -/
def new (config : RolloutConfig) (assigner : Assigner σ) : Controller σ :=
  { config := config.normalized, assigner }

/-- Whether a path begins with one of those listed; empty entries do not count. -/
def matchesPrefix (listed : List String) (path : String) : Bool :=
  listed.any fun p => !p.isEmpty && p.toList.isPrefixOf path.toList

/-- The decision by the rules that do not ask for the assignment; none where it has to be asked. -/
def decideEarly (config : RolloutConfig) (overrides : Table Bool) (path : Option String) :
    Option Decision :=
  match path.bind overrides.find? with
  | some value => some ⟨value, .override⟩
  | none =>
    if !config.enabled then some ⟨false, .disabled⟩
    else if path.any (matchesPrefix config.disabledPaths) then some ⟨false, .deniedPath⟩
    else if config.enabledPaths.any (!String.isEmpty ·) then
      if path.any (matchesPrefix config.enabledPaths) then some ⟨true, .allowedPath⟩
      else some ⟨false, .notAllowListed⟩
    else if 0 < config.percentage && config.percentage < 100 then none
    else some ⟨100 ≤ config.percentage, .percentage config.percentage⟩

def decide (c : Controller σ) (path : Option String) : Decision × Controller σ :=
  match decideEarly c.config c.overrides path with
  | some d => (d, c)
  | none =>
    let (a, assigner) := c.assigner.assignment
    (⟨a.bucket < c.config.percentage, .bucket a.bucket c.config.percentage⟩, { c with assigner })

/-- Whether the unified client serves a path. -/
def shouldUseNew (c : Controller σ) (path : Option String) : Bool × Controller σ :=
  let (d, c) := c.decide path
  (d.useNew, c)

def setOverride (c : Controller σ) (path : String) (useNew : Bool) : Controller σ :=
  { c with overrides := c.overrides.insert path useNew }

/-- Without the override of a path, which is returned. -/
def clearOverride (c : Controller σ) (path : String) : Option Bool × Controller σ :=
  (c.overrides.find? path, { c with overrides := c.overrides.erase path })

def clearOverrides (c : Controller σ) : Controller σ := { c with overrides := [] }

def updateConfig (c : Controller σ) (config : RolloutConfig) : Controller σ :=
  { c with config := config.normalized }

def setPercentage (c : Controller σ) (value : Int) : Controller σ :=
  { c with config := { c.config with percentage := clampPercentage value } }

def setEnabled (c : Controller σ) (value : Bool) : Controller σ :=
  { c with config := { c.config with enabled := value } }

def assignment (c : Controller σ) : Assignment × Controller σ :=
  let (a, assigner) := c.assigner.assignment
  (a, { c with assigner })

end Controller

end ClientMigration
