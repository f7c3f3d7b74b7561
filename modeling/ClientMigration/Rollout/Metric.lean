/-
# Rollout.Metric -- events about clients

Every event names the variant that served it. What counts events tells them apart
by few labels only, so that paths and users do not become labels.
-/
import ClientMigration.Vocabulary
import ClientMigration.Data.Table

namespace ClientMigration

set_option autoImplicit false

structure MetricEvent where
  name : String
  variant : Variant
  metadata : Table String := []
  deriving DecidableEq, Repr

namespace MetricEvent

/-- The metadata that become labels. -/
def labelKeys : List String := ["preset"]

/-- The labels under which an event is counted. -/
def labels (e : MetricEvent) : List (String × String) :=
  [("event", e.name), ("variant", e.variant.name)] ++ e.metadata.filter (labelKeys.contains ·.1)

end MetricEvent

end ClientMigration
