/-
# Rollout.Status -- a controller at a glance
-/
import ClientMigration.Rollout.Controller

namespace ClientMigration

set_option autoImplicit false

structure RolloutStatus where
  config : RolloutConfig
  assignment : Assignment
  hasher : Hasher
  overrides : Table Bool
  /-- The decision for a call without a path. -/
  defaultDecision : Decision
  deriving DecidableEq, Repr

/-- The status of a controller. It asks for the assignment. -/
def Controller.status {σ : Type} (c : Controller σ) : RolloutStatus × Controller σ :=
  let (assignment, c) := c.assignment
  let (defaultDecision, c) := c.decide none
  (⟨c.config, assignment, c.assigner.hasher, c.overrides, defaultDecision⟩, c)

namespace RolloutStatus

def datum (s : RolloutStatus) : Datum :=
  .record
    [("config", RolloutConfig.codec.write s.config),
     ("assignment", Assignment.codec.write s.assignment),
     ("hasher", Hasher.codec.write s.hasher),
     ("overrides", (Table.codec .boolean).write s.overrides),
     ("default_decision", s.defaultDecision.datum)]

/-- The entries with commas between them, or a dash. -/
def joinOrDash (items : List String) : String := if items.isEmpty then "-" else ", ".intercalate items

def truth (b : Bool) : String := if b then "true" else "false"

def overrideLines (overrides : Table Bool) : List String :=
  if overrides.isEmpty then ["overrides:          -"]
  else "overrides:" :: overrides.map fun (path, useNew) =>
    "  " ++ path ++ " -> " ++ (if useNew then "new" else "old")

def lines (s : RolloutStatus) : List String :=
  ["enabled:            " ++ truth s.config.enabled,
   "rollout percentage: " ++ toString s.config.percentage ++ "%",
   "enabled paths:      " ++ joinOrDash s.config.enabledPaths,
   "disabled paths:     " ++ joinOrDash s.config.disabledPaths,
   "debug mode:         " ++ truth s.config.debugMode,
   "bucket:             " ++ toString s.assignment.bucket ++ " (" ++ s.hasher.name ++
     (if s.assignment.persisted then "" else ", session only") ++ ")",
   "default decision:   " ++ s.defaultDecision.word ++ " (" ++ s.defaultDecision.reason.text ++ ")"] ++
  overrideLines s.overrides

def text (s : RolloutStatus) : String := String.join (s.lines.map (· ++ "\n"))

end RolloutStatus

end ClientMigration
