/-
# Proofs.Pipeline.Measurements -- what a row of measurements adds up to

Recording a measurement of a stage changes what is known of that stage and of no
other (`get_record_of_ne`). So after any row of measurements what is known of a
stage comes from its own ones, in their order (`get_recordAll`): its executions
have grown by their number and its errors by the number of those that failed
(`executions_recordAll`, `errors_recordAll`).
-/
import ClientMigration.Pipeline.Stats

namespace ClientMigration

set_option autoImplicit false

/-- A measurement of a stage. -/
structure Measurement where
  stage : Stage
  /-- Milliseconds. -/
  time : Float
  success : Bool

namespace Stats

def recordAll (s : Stats) (ms : List Measurement) : Stats :=
  ms.foldl (fun s m => s.record m.time m.success) s

theorem executions_recordAll (s : Stats) (ms : List Measurement) :
    (s.recordAll ms).executions = s.executions + ms.length := by
  induction ms generalizing s with
  | nil => rfl
  | cons m ms ih =>
    rw [recordAll, List.foldl_cons, ← recordAll, ih, List.length_cons]
    show s.executions + 1 + ms.length = _
    omega

theorem errors_recordAll (s : Stats) (ms : List Measurement) :
    (s.recordAll ms).errors = s.errors + ms.countP (!·.success) := by
  induction ms generalizing s with
  | nil => rfl
  | cons m ms ih =>
    rw [recordAll, List.foldl_cons, ← recordAll, ih]
    cases success : m.success with
    | true => rw [List.countP_cons_of_neg (by simp [success])]; rfl
    | false =>
      rw [List.countP_cons_of_pos (by simp [success])]
      show s.errors + 1 + _ = _
      omega

end Stats

namespace StatsTable

variable {stage other : Stage}

def recordAll (t : StatsTable) (ms : List Measurement) : StatsTable :=
  ms.foldl (fun t m => t.record m.stage m.time m.success) t

theorem get_record_self (t : StatsTable) (stage : Stage) (time : Float) (success : Bool) :
    (t.record stage time success).get stage = (t.get stage).record time success :=
  PerStage.get_set_self t stage _

theorem get_record_of_ne (t : StatsTable) (time : Float) (success : Bool) (distinct : other ≠ stage) :
    (t.record stage time success).get other = t.get other :=
  PerStage.get_set_of_ne t _ distinct

/-- What is known of a stage comes from its own measurements, whatever stands between them. -/
theorem get_recordAll (t : StatsTable) (ms : List Measurement) (stage : Stage) :
    (t.recordAll ms).get stage = (t.get stage).recordAll (ms.filter (·.stage = stage)) := by
  induction ms generalizing t with
  | nil => rfl
  | cons m ms ih =>
    rw [recordAll, List.foldl_cons, ← recordAll, ih]
    by_cases own : m.stage = stage
    · subst own
      rw [List.filter_cons_of_pos (by simp), get_record_self]
      rfl
    · rw [List.filter_cons_of_neg (by simpa using own), get_record_of_ne t _ _ (Ne.symm own)]

theorem executions_recordAll (t : StatsTable) (ms : List Measurement) (stage : Stage) :
    ((t.recordAll ms).get stage).executions =
      (t.get stage).executions + (ms.map Measurement.stage).count stage := by
  rw [get_recordAll, Stats.executions_recordAll, List.count, List.countP_map, List.countP_eq_length_filter]
  congr 3

theorem errors_recordAll (t : StatsTable) (ms : List Measurement) (stage : Stage) :
    ((t.recordAll ms).get stage).errors =
      (t.get stage).errors + ms.countP fun m => m.stage = stage && !m.success := by
  rw [get_recordAll, Stats.errors_recordAll, List.countP_filter]
  congr 2
  funext m
  exact Bool.and_comm _ _

/-- Nothing becomes known of a stage without measurements of its own. -/
theorem get_recordAll_of_not_mem (t : StatsTable) {ms : List Measurement}
    (none : stage ∉ ms.map Measurement.stage) : (t.recordAll ms).get stage = t.get stage := by
  have empty : ms.filter (·.stage = stage) = [] := by
    rw [List.filter_eq_nil_iff]
    intro m listed own
    exact none (List.mem_map.mpr ⟨m, listed, of_decide_eq_true own⟩)
  rw [get_recordAll, empty]
  rfl

end StatsTable

end ClientMigration
