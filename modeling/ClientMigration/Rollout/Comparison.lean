/-
# Rollout.Comparison -- one call through each variant

The times of one call through the legacy and one through the unified client, and
how far the second is from the first.
-/
import ClientMigration.Client.Settings
import ClientMigration.Data.Decimal

namespace ClientMigration

set_option autoImplicit false

structure Comparison where
  preset : Preset
  path : String
  legacyMs : Float
  unifiedMs : Float
  /-- The difference in percent of the legacy time; zero if that is zero. -/
  deltaPercent : Float
  deriving Repr

namespace Comparison

def of (preset : Preset) (path : String) (legacy unified : Span) : Comparison :=
  let legacyMs := legacy.seconds * 1000.0
  let unifiedMs := unified.seconds * 1000.0
  { preset, path, legacyMs, unifiedMs
    deltaPercent := if 0.0 < legacyMs then (unifiedMs - legacyMs) / legacyMs * 100.0 else 0.0 }

/-- The legacy client, unless the unified one took less time. -/
def faster (c : Comparison) : Variant := if c.unifiedMs < c.legacyMs then .unified else .legacy

def text (c : Comparison) : Text :=
  let column (width : Nat) (t : Text) : Text := Decimal.padLeft width ' ' t
  ("preset " ++ c.preset.name ++ " path " ++ c.path ++ "\n  legacy:  ").toList ++
    column 9 (Decimal.fixed 2 c.legacyMs) ++ "ms\n  unified: ".toList ++
    column 9 (Decimal.fixed 2 c.unifiedMs) ++ "ms\n  delta:   ".toList ++
    column 8 (Decimal.signed 1 c.deltaPercent) ++ ("% (" ++ c.faster.name ++ " faster)").toList

end Comparison

end ClientMigration
