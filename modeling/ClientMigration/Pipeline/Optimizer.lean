/-
# Pipeline.Optimizer -- in which order stages run, and which are skipped

Stages run in the order of their ranks. Once two of those asked for have been
measured, stages that fail more often than one time in ten go behind the others;
on each side the measured ones come first, the faster ahead of the slower, and
what is left is ordered by rank. Measurements that contradict themselves leave
the order of the ranks.

A stage with nothing to do for a request is skipped.
-/
import ClientMigration.Pipeline.Request
import ClientMigration.Pipeline.Stats

namespace ClientMigration

set_option autoImplicit false

structure OptimizerConfig where
  /-- Whether a success skips retries and errors. -/
  skipOnSuccess : Bool := true
  /-- Whether a cached answer skips logging and errors. -/
  skipOnCachedResponse : Bool := true
  /-- Whether anything is skipped at all. -/
  conditionalExecution : Bool := true
  /-- The time in milliseconds above which a stage counts as slow. -/
  maxExecutionTime : Nat := 100
  /-- Reported only. -/
  parallelExecution : Bool := false
  /-- Reported only. -/
  lazyLoading : Bool := true
  deriving DecidableEq, Repr

namespace OptimizerConfig

def fields : List (Field OptimizerConfig) :=
  [.of .boolean "skip_on_success" skipOnSuccess fun v c => { c with skipOnSuccess := v },
   .of .boolean "skip_on_cached_response" skipOnCachedResponse
     fun v c => { c with skipOnCachedResponse := v },
   .of .boolean "conditional_execution" conditionalExecution
     fun v c => { c with conditionalExecution := v },
   .of (.unsigned 64) "max_execution_time_ms" maxExecutionTime
     fun v c => { c with maxExecutionTime := v },
   .of .boolean "parallel_execution" parallelExecution fun v c => { c with parallelExecution := v },
   .of .boolean "lazy_loading" lazyLoading fun v c => { c with lazyLoading := v }]

def codec : Codec OptimizerConfig := .settings fields {}

end OptimizerConfig

/-- The rank of each stage; lower ranks run first. -/
abbrev Ranks := PerStage Nat

namespace Ranks

def default : Ranks := ⟨1, 2, 3, 4, 5⟩

/-- Ranks as a list in the order of the stages. -/
def listCodec : Codec Ranks where
  read d :=
    match (Codec.list (.unsigned 8)).read d with
    | some [a, b, c, d, e] => some ⟨a, b, c, d, e⟩
    | _ => none
  write r := (Codec.list (.unsigned 8)).write r.toList

def fields : List (Field Ranks) := [.of listCodec "ranks" id fun v _ => v]

def codec : Codec Ranks := .complete fields default

/-- The stages by rank, those of one rank in the order given. -/
def sort (r : Ranks) (stages : List Stage) : List Stage :=
  stages.mergeSort fun a b => r.get a ≤ r.get b

end Ranks

/-- What the adaptive order compares, the first difference deciding. -/
structure OrderKey where
  failing : Bool
  unmeasured : Bool
  /-- The average time by its place in the order of numbers. -/
  time : Int
  rank : Nat
  deriving DecidableEq, Repr

namespace OrderKey

/-- The place of a finite number: numbers are ordered as these are. -/
def place (x : Float) : Int :=
  let n := x.toBits.toNat
  if n < 0x8000000000000000 then n else 0x7fffffffffffffff - n

def compare (a b : OrderKey) : Ordering :=
  (Ord.compare a.failing b.failing).then <|
    (Ord.compare a.unmeasured b.unmeasured).then <|
      (Ord.compare a.time b.time).then (Ord.compare a.rank b.rank)

end OrderKey

structure Optimizer where
  config : OptimizerConfig := {}
  ranks : Ranks := .default
  stats : StatsTable := .empty

namespace Optimizer

/-- The share of failures above which a stage goes behind the others. -/
def errorRateThreshold : Float := 0.10

/-- Whether the measurements can be true and their mean is a number. -/
def isSound (s : Stats) : Bool := s.errors ≤ s.executions && s.averageTime.isFinite

def orderKey (o : Optimizer) (stage : Stage) : OrderKey :=
  let s := o.stats.get stage
  { failing := errorRateThreshold < s.errorRate
    unmeasured := !s.hasData
    time := OrderKey.place s.averageTime
    rank := o.ranks.get stage }

/-- Whether the measurements decide the order of some stages. -/
def isAdaptive (o : Optimizer) (stages : List Stage) : Bool :=
  2 ≤ (stages.filter fun s => (o.stats.get s).hasData).length &&
    stages.all fun s => isSound (o.stats.get s)

/-- The order in which stages run. -/
def order (o : Optimizer) (stages : List Stage) : List Stage :=
  let byRank := o.ranks.sort stages
  if o.isAdaptive byRank then
    byRank.mergeSort fun a b => ((o.orderKey a).compare (o.orderKey b)).isLE
  else byRank

/-- Whether a stage runs for a request. The first rule that applies decides: nothing is skipped
unless skipping is on; retries run for every GET; a probe runs logging and errors alone; a cached
answer skips those two; a success skips retries and errors. -/
def shouldExecute (o : Optimizer) (stage : Stage) (r : Request) : Bool :=
  if !o.config.conditionalExecution then true
  else if stage == .retry && r.method == .get then true
  else if r.isHealthCheck then stage == .logging || stage == .error
  else if r.isCached && o.config.skipOnCachedResponse && (stage == .logging || stage == .error) then
    false
  else if r.isSuccess && o.config.skipOnSuccess && (stage == .retry || stage == .error) then false
  else true

def record (o : Optimizer) (stage : Stage) (time : Float) (success : Bool) : Optimizer :=
  { o with stats := o.stats.record stage time success }

/-- Without measurements. -/
def reset (o : Optimizer) : Optimizer := { o with stats := .empty }

end Optimizer

end ClientMigration
