/-
# Rollout.Console -- controls for developers

Available only in debug mode. The two forcing commands do away with every override,
so that one answer holds for all paths.
-/
import ClientMigration.Rollout.Factory
import ClientMigration.Rollout.Status
import ClientMigration.Rollout.Comparison

namespace ClientMigration

set_option autoImplicit false

/-- Whether a console may be attached. -/
def Factory.allowsConsole {σ : Type} (f : Factory σ) : Bool := f.controller.config.debugMode

namespace Console

variable {σ : Type}

/-- The unified client for every path. -/
def forceNew (c : Controller σ) : Controller σ :=
  let c := c.clearOverrides
  c.updateConfig
    { c.config with
      enabled := true
      percentage := clampPercentage 100
      enabledPaths := []
      disabledPaths := [] }

/-- The legacy client for every path. -/
def forceOld (c : Controller σ) : Controller σ := c.clearOverrides.setEnabled false

/-- Switches the rollout on at a percentage. -/
def setPercentage (c : Controller σ) (value : Int) : Controller σ :=
  (c.setEnabled true).setPercentage value

/-- What calls an address through a client, and says how long that took if it succeeded. -/
abbrev Probe := Client → String → Option Span

/-- The addresses called, and the comparison, or the address whose call failed. -/
structure ProbeOutcome where
  urls : List String
  result : Except String Comparison

def probeEvent (preset : Preset) (variant : Variant) (ms : Float) : MetricEvent :=
  { name := "performance_probe", variant
    metadata := .ofList
      [("preset", preset.name), ("duration_ms", String.ofList (Decimal.fixed 2 ms))] }

/-- Calls a path through the legacy client, which needs the version in front, and then through the
unified one. -/
def compare (f : Factory σ) (probe : Probe) (preset : Preset) (path : String) :
    ProbeOutcome × Factory σ :=
  let (legacy, f) := f.clientFor .legacy preset
  let (unified, f) := f.clientFor .unified preset
  let legacyPath := f.endpoint.versionedPath path
  let legacyUrl := legacy.url legacyPath
  let unifiedUrl := unified.url path
  match probe legacy legacyPath with
  | none => (⟨[legacyUrl], .error legacyUrl⟩, f)
  | some legacyTime =>
    match probe unified path with
    | none => (⟨[legacyUrl, unifiedUrl], .error unifiedUrl⟩, f)
    | some unifiedTime =>
      let c := Comparison.of preset path legacyTime unifiedTime
      (⟨[legacyUrl, unifiedUrl], .ok c⟩,
       (f.emit (probeEvent preset .legacy c.legacyMs)).emit
         (probeEvent preset .unified c.unifiedMs))

end Console

end ClientMigration
