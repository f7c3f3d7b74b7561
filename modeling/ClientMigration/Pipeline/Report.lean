/-
# Pipeline.Report -- what the optimizer knows, as a table

A report has the order of all stages, the settings, the measurements, and advice
on stages that fail often or take long.
-/
import ClientMigration.Pipeline.Optimizer
import ClientMigration.Data.Decimal

namespace ClientMigration

set_option autoImplicit false

structure OptimizerReport where
  order : List Stage
  settings : OptimizerConfig
  stats : List Stats
  suggestions : List String
  deriving Repr

namespace OptimizerReport

open Decimal

/-- Advice on one stage. -/
def advice (config : OptimizerConfig) (s : Stats) : List String :=
  let name := s.stage.name
  (if Optimizer.errorRateThreshold < s.errorRate then
    [name ++ ": error rate " ++ String.ofList (fixed 1 (s.errorRate * 100.0)) ++ "% exceeds " ++
      String.ofList (fixed 0 (Optimizer.errorRateThreshold * 100.0)) ++ "%, investigate failures"]
   else []) ++
  (if Float.ofNat config.maxExecutionTime < s.averageTime then
    [name ++ ": average " ++ String.ofList (fixed 1 s.averageTime) ++ "ms exceeds the " ++
      toString config.maxExecutionTime ++ "ms threshold"]
   else [])

def ofOptimizer (o : Optimizer) : OptimizerReport :=
  let stats := o.stats.toList
  let measured := stats.filter Stats.hasData
  { order := o.order Stage.all
    settings := o.config
    stats
    suggestions :=
      (if measured.isEmpty then ["no statistics recorded yet"] else []) ++
      measured.flatMap (advice o.config) ++
      (if o.config.conditionalExecution then []
       else ["enable conditional execution to skip redundant stages"]) }

/-! ## As text -/

def onOff (b : Bool) : String := if b then "on" else "off"

/-- The first cell of a row to the left of its column, the others to the right of theirs. -/
def row (first : String) (cells : List (Nat × Text)) : Text :=
  padRight 8 first.toList ++ cells.flatMap fun c => ' ' :: padLeft c.1 ' ' c.2

def heading : Text :=
  row "stage" [(8, "runs".toList), (7, "errors".toList), (8, "err %".toList), (9, "avg ms".toList),
    (9, "min ms".toList), (9, "max ms".toList)]

def statsRow (s : Stats) : Text :=
  row s.stage.name [(8, (toString s.executions).toList), (7, (toString s.errors).toList),
    (8, padLeft 7 ' ' (fixed 1 (s.errorRate * 100.0)) ++ ['%']), (9, fixed 2 s.averageTime),
    (9, fixed 2 s.minTime), (9, fixed 2 s.maxTime)]

def lines (r : OptimizerReport) : List Text :=
  [("Execution order: " ++ " -> ".intercalate (r.order.map Stage.name)).toList,
   ("Settings: conditional=" ++ onOff r.settings.conditionalExecution ++ " parallel=" ++
     onOff r.settings.parallelExecution ++ " lazy=" ++ onOff r.settings.lazyLoading ++ " slow=" ++
     toString r.settings.maxExecutionTime ++ "ms").toList,
   [], heading] ++
  r.stats.map statsRow ++
  (if r.suggestions.isEmpty then []
   else [] :: "Suggestions:".toList :: r.suggestions.map fun s => ("  - " ++ s).toList)

def text (r : OptimizerReport) : Text := r.lines.flatMap (· ++ ['\n'])

end OptimizerReport

end ClientMigration
