/-
# Pipeline.Run -- passing a request through the stages

The order is computed once, at the start. A stage that fails is noted, and the
run goes on. What each call of a stage gave enters the measurements.
-/
import ClientMigration.Pipeline.Optimizer

namespace ClientMigration

set_option autoImplicit false

/-- A stage that failed. -/
structure StageFailure where
  stage : Stage
  message : String
  deriving DecidableEq, Repr

def StageFailure.text (f : StageFailure) : String := f.stage.name ++ " stage failed: " ++ f.message

/-- What a call of a stage comes back with. -/
structure Response where
  /-- Milliseconds that the call took. -/
  time : Float
  /-- What went wrong, if anything did; a stage can report the failure of another. -/
  failure? : Option StageFailure

def Response.isSuccess (r : Response) : Bool := r.failure?.isNone

/-- What a call of a stage comes back with that speaks for itself alone. -/
structure Reply where
  /-- Milliseconds that the call took. -/
  time : Float
  /-- What went wrong, if anything did. -/
  failure? : Option String

/-- A reply with the name of the stage that gave it. -/
def Reply.ofStage (r : Reply) (stage : Stage) : Response := ⟨r.time, r.failure?.map (⟨stage, ·⟩)⟩

/-- What became of each stage of a run. -/
structure RunOutcome where
  executed : List Stage := []
  skipped : List Stage := []
  failures : List StageFailure := []
  deriving DecidableEq, Repr

namespace RunOutcome

def isSuccess (r : RunOutcome) : Bool := r.failures.isEmpty

end RunOutcome

namespace Optimizer

variable {σ : Type}

/-- Runs stages that are in order. `call` carries a state of its own from one call to the next. -/
def runFrom (call : Stage → σ → Response × σ) (r : Request) :
    List Stage → Optimizer → RunOutcome → σ → Optimizer × RunOutcome × σ
  | [], o, out, s => (o, out, s)
  | stage :: rest, o, out, s =>
    if o.shouldExecute stage r then
      let (response, s) := call stage s
      runFrom call r rest (o.record stage response.time response.isSuccess)
        { out with
          executed := out.executed ++ [stage]
          failures := out.failures ++ response.failure?.toList } s
    else runFrom call r rest o { out with skipped := out.skipped ++ [stage] } s

/-- Passes a request through stages. -/
def runWith (o : Optimizer) (stages : List Stage) (r : Request) (call : Stage → σ → Response × σ)
    (s : σ) : Optimizer × RunOutcome × σ :=
  runFrom call r (o.order stages) o {} s

/-- Passes a request through stages that speak for themselves alone. -/
def run (o : Optimizer) (stages : List Stage) (r : Request) (call : Stage → σ → Reply × σ) (s : σ) :
    Optimizer × RunOutcome × σ :=
  o.runWith stages r (fun stage s => let (reply, s) := call stage s; (reply.ofStage stage, s)) s

end Optimizer

end ClientMigration
