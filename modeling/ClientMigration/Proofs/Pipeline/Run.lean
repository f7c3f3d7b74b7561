/-
# Proofs.Pipeline.Run -- what a run calls, and what it notes of it

A run goes through the stages in the order that it computes at its start. What it
records on the way changes the measurements and nothing that decides whether a
stage is skipped (`shouldExecute_record`), so which stages are called is settled at
the start too. The calls are made one after the other, each from the state that the
last one left (`Calls`), and a run notes of them what they came back with
(`runFrom_calls`).

`run_accounts` says it of a whole run: the stages called and those skipped are the
two parts of the order, the failures are those that the calls came back with, and
the measurements of each stage have grown by its calls.
-/
import ClientMigration.Pipeline.Run
import ClientMigration.Proofs.Pipeline.Measurements
import ClientMigration.Proofs.Pipeline.Order

namespace ClientMigration

set_option autoImplicit false

/-- A call of a stage with what it came back with. -/
structure Call where
  stage : Stage
  response : Response

def Call.measurement (c : Call) : Measurement := ⟨c.stage, c.response.time, c.response.isSuccess⟩

variable {σ : Type} {call : Stage → σ → Response × σ}

/-- Calls made one after the other, from one state of the stages to another. -/
inductive Calls (call : Stage → σ → Response × σ) : σ → List Call → σ → Prop
  | none (s : σ) : Calls call s [] s
  | next {stage : Stage} {s s' s'' : σ} {response : Response} {later : List Call}
      (made : call stage s = (response, s')) (rest : Calls call s' later s'') :
      Calls call s (⟨stage, response⟩ :: later) s''

namespace Optimizer

variable {r : Request}

/-- What is recorded does not decide about skipping. -/
theorem shouldExecute_record (o : Optimizer) (stage : Stage) (time : Float) (success : Bool) :
    (o.record stage time success).shouldExecute = o.shouldExecute := rfl

theorem runFrom_called {o : Optimizer} {out : RunOutcome} {stage : Stage} {rest : List Stage} {s s' : σ}
    {response : Response} (due : o.shouldExecute stage r) (made : call stage s = (response, s')) :
    runFrom call r (stage :: rest) o out s =
      runFrom call r rest (o.record stage response.time response.isSuccess)
        { out with
          executed := out.executed ++ [stage]
          failures := out.failures ++ response.failure?.toList } s' := by
  rw [runFrom, if_pos due, made]

theorem runFrom_skipped {o : Optimizer} {out : RunOutcome} {stage : Stage} {rest : List Stage} {s : σ}
    (idle : ¬ o.shouldExecute stage r) :
    runFrom call r (stage :: rest) o out s =
      runFrom call r rest o { out with skipped := out.skipped ++ [stage] } s := by
  rw [runFrom, if_neg idle]

/-- A run makes the calls that are due, and adds to what was noted before what they came back with. -/
theorem runFrom_calls (call : Stage → σ → Response × σ) (r : Request) (stages : List Stage) (o : Optimizer)
    (out : RunOutcome) (s : σ) :
    ∃ made s', Calls call s made s' ∧ made.map Call.stage = stages.filter (o.shouldExecute · r) ∧
      runFrom call r stages o out s =
        ({ o with stats := o.stats.recordAll (made.map Call.measurement) },
          { executed := out.executed ++ stages.filter (o.shouldExecute · r)
            skipped := out.skipped ++ stages.filter (!o.shouldExecute · r)
            failures := out.failures ++ made.filterMap (·.response.failure?) }, s') := by
  induction stages generalizing o out s with
  | nil => exact ⟨[], s, .none s, rfl, by simp [runFrom, StatsTable.recordAll]⟩
  | cons stage rest ih =>
    simp only [List.filter_cons]
    by_cases due : o.shouldExecute stage r = true
    · rcases answer : call stage s with ⟨response, s₁⟩
      obtain ⟨made, s', calls, called, result⟩ := ih (o.record stage response.time response.isSuccess)
        { out with
          executed := out.executed ++ [stage]
          failures := out.failures ++ response.failure?.toList } s₁
      refine ⟨⟨stage, response⟩ :: made, s', .next answer calls, ?_, ?_⟩
      · rw [if_pos due, List.map_cons, called, shouldExecute_record]
      · rw [runFrom_called due answer, result, shouldExecute_record, if_pos due, if_neg (by simp [due])]
        cases failed : response.failure? <;>
          simp [failed, StatsTable.recordAll, Call.measurement, record]
    · obtain ⟨made, s', calls, called, result⟩ := ih o { out with skipped := out.skipped ++ [stage] } s
      refine ⟨made, s', calls, by rw [if_neg due, called], ?_⟩
      rw [runFrom_skipped due, result, if_neg due, if_pos (by simpa using due)]
      simp

/-- Every stage of the order that is due is called once, in that order and whatever the calls before it
came back with. The stages called and those skipped are what was asked for, the failures are those
that the calls came back with, and the measurements of a stage grow by its calls alone. -/
theorem run_accounts (o : Optimizer) (stages : List Stage) (r : Request) (call : Stage → σ → Response × σ)
    (s : σ) :
    ∃ o' out s' made, o.runWith stages r call s = (o', out, s') ∧
      Calls call s made s' ∧ made.map Call.stage = out.executed ∧
      out.executed = (o.order stages).filter (o.shouldExecute · r) ∧
      out.skipped = (o.order stages).filter (!o.shouldExecute · r) ∧
      (out.executed ++ out.skipped).Perm stages ∧
      out.failures = made.filterMap (·.response.failure?) ∧
      ∀ stage, (o'.stats.get stage).executions = (o.stats.get stage).executions + out.executed.count stage ∧
        (o'.stats.get stage).errors = (o.stats.get stage).errors +
          made.countP (fun c => c.stage = stage && c.response.failure?.isSome) ∧
        (stage ∉ out.executed → o'.stats.get stage = o.stats.get stage) := by
  obtain ⟨made, s', calls, called, result⟩ := runFrom_calls call r (o.order stages) o {} s
  have stagesOf : (made.map Call.measurement).map Measurement.stage = made.map Call.stage := List.map_map
  refine ⟨_, _, s', made, result, calls, called, rfl, rfl, ?_, rfl, fun stage => ⟨?_, ?_, fun absent => ?_⟩⟩
  · exact (List.filter_append_perm _ _).trans (o.order_perm stages)
  · rw [StatsTable.executions_recordAll, stagesOf, called]
    rfl
  · rw [StatsTable.errors_recordAll, List.countP_map]
    congr 2
    funext c
    show (decide (c.stage = stage) && !c.response.failure?.isNone) = _
    rw [Option.not_isNone]
  · refine StatsTable.get_recordAll_of_not_mem o.stats ?_
    rw [stagesOf, called]
    exact absent

end Optimizer

end ClientMigration
