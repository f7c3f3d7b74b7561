/-
# Pipeline.Stats -- measurements of stages

Each stage has a count of its executions and failures, and the sum, the least and
the greatest of their times in milliseconds. A time that is negative, infinite or
no number counts as zero.
-/
import ClientMigration.Pipeline.PerStage

namespace ClientMigration

set_option autoImplicit false

structure Stats where
  stage : Stage
  executions : Nat := 0
  totalTime : Float := 0.0
  maxTime : Float := 0.0
  minTime : Float := 0.0
  errors : Nat := 0
  deriving Repr

namespace Stats

/-- The time that is recorded for a measured one. -/
def sanitized (time : Float) : Float := if time.isFinite && 0.0 < time then time else 0.0

def lesser (x y : Float) : Float := if y < x then y else x

def greater (x y : Float) : Float := if x < y then y else x

def hasData (s : Stats) : Bool := 0 < s.executions

/-- With one more execution. -/
def record (s : Stats) (time : Float) (success : Bool) : Stats :=
  let t := sanitized time
  { s with
    minTime := if s.hasData then lesser s.minTime t else t
    maxTime := if s.hasData then greater s.maxTime t else t
    executions := s.executions + 1
    totalTime := s.totalTime + t
    errors := if success then s.errors else s.errors + 1 }

/-- The mean time, zero without data. -/
def averageTime (s : Stats) : Float :=
  if s.hasData then s.totalTime / Float.ofNat s.executions else 0.0

/-- The share of failures, zero without data. -/
def errorRate (s : Stats) : Float :=
  if s.hasData then Float.ofNat s.errors / Float.ofNat s.executions else 0.0

def fields : List (Field Stats) :=
  [.of Stage.codec "kind" stage fun v s => { s with stage := v },
   .of (.unsigned 64) "execution_count" executions fun v s => { s with executions := v },
   .of .float "total_time_ms" totalTime fun v s => { s with totalTime := v },
   .of .float "max_time_ms" maxTime fun v s => { s with maxTime := v },
   .of .float "min_time_ms" minTime fun v s => { s with minTime := v },
   .of (.unsigned 64) "errors" errors fun v s => { s with errors := v }]

def codec : Codec Stats := .complete fields { stage := .logging }

end Stats

/-- The measurements of every stage. -/
abbrev StatsTable := PerStage Stats

namespace StatsTable

def empty : StatsTable := .ofFn fun s => { stage := s }

def record (t : StatsTable) (s : Stage) (time : Float) (success : Bool) : StatsTable :=
  t.set s ((t.get s).record time success)

end StatsTable

end ClientMigration
