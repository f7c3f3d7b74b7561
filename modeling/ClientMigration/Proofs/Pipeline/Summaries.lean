/-
# Proofs.Pipeline.Summaries -- what the measurements of a stage say of its run

The times of a stage are counted with zero in place of those that are negative or
no finite numbers (`sanitized_finite`), so they are finite and in one order. The first
of them is the least and the greatest so far, and each further one is compared with
both: after any row of measurements `Spans` holds of what is known
(`spans_recordAll`).

A table is measured and cleared in any order. What it knows is what was measured
since it was cleared last (`after_eq`), and of a stage it knows what was measured
of that stage, whatever came in between (`get_after`, `sinceReset_concerns`).
-/
import Mathlib.Data.List.DropRight
import Mathlib.Data.List.Induction
import Mathlib.Order.Bounds.Defs
import ClientMigration.Proofs.Data.Number
import ClientMigration.Proofs.Pipeline.Measurements

namespace ClientMigration

set_option autoImplicit false

/-! ## Times that are counted -/

theorem isFinite_zero : (0.0 : Float).isFinite = true := by decide +kernel

namespace Stats

variable {x y : Float}

theorem sanitized_finite (time : Float) : (sanitized time).isFinite = true := by
  unfold sanitized
  split
  · rename_i counts
    exact (Bool.and_eq_true_iff.mp counts).1
  · exact isFinite_zero

theorem sanitized_zero (none : x.isFinite = false ∨ x < 0.0) : sanitized x = 0.0 := by
  unfold sanitized
  split
  · rename_i counts
    obtain ⟨finite, positive⟩ := Bool.and_eq_true_iff.mp counts
    have positive : 0.0 < x := of_decide_eq_true positive
    rcases none with infinite | negative
    · rw [finite] at infinite
      cases infinite
    · rw [Number.lt_iff_rank isFinite_zero finite] at positive
      rw [Number.lt_iff_rank finite isFinite_zero] at negative
      exact absurd positive negative.asymm
  · rfl

/-- Of the two zeros the one without a sign is counted, and they are equal. -/
theorem sanitized_beq (finite : x.isFinite = true) (not_negative : ¬ x < 0.0) :
    (sanitized x == x) = true := by
  unfold sanitized
  split
  · exact (Number.beq_iff_rank finite finite).mpr rfl
  · rename_i counts
    have not_positive : ¬ 0.0 < x := by simpa [finite] using counts
    rw [Number.lt_iff_rank isFinite_zero finite, not_lt] at not_positive
    rw [Number.lt_iff_rank finite isFinite_zero, not_lt] at not_negative
    exact (Number.beq_iff_rank isFinite_zero finite).mpr (le_antisymm not_negative not_positive)

theorem lesser_cases (finite : x.isFinite = true) (finite' : y.isFinite = true) :
    lesser x y = x ∧ x ≤ y ∨ lesser x y = y ∧ y ≤ x := by
  unfold lesser
  split
  · rename_i less
    exact Or.inr ⟨rfl, Number.le_of_lt finite' finite less⟩
  · rename_i not_less
    exact Or.inl ⟨rfl, Number.le_of_not_lt finite finite' not_less⟩

theorem greater_cases (finite : x.isFinite = true) (finite' : y.isFinite = true) :
    greater x y = x ∧ y ≤ x ∨ greater x y = y ∧ x ≤ y := by
  unfold greater
  split
  · rename_i less
    exact Or.inr ⟨rfl, Number.le_of_lt finite finite' less⟩
  · rename_i not_less
    exact Or.inl ⟨rfl, Number.le_of_not_lt finite' finite not_less⟩

end Stats

/-- The time that a measurement counts with. -/
def Measurement.counted (m : Measurement) : Float := Stats.sanitized m.time

/-- The times that measurements count with. -/
def timesOf (ms : List Measurement) : Set Float := {t | t ∈ ms.map Measurement.counted}

variable {ms : List Measurement} {m : Measurement}

theorem finite_of_mem {t : Float} (listed : t ∈ timesOf ms) : t.isFinite = true := by
  obtain ⟨m, _, rfl⟩ := List.mem_map.mp listed
  exact Stats.sanitized_finite m.time

theorem mem_timesOf_append {t : Float} : t ∈ timesOf (ms ++ [m]) ↔ t ∈ timesOf ms ∨ t = m.counted := by
  show t ∈ (ms ++ [m]).map Measurement.counted ↔ t ∈ ms.map Measurement.counted ∨ t = m.counted
  rw [List.map_append, List.mem_append, List.map_singleton, List.mem_singleton]

/-! ## The least and the greatest time -/

/-- What comes ahead of all times so far, or the new one if that comes ahead of it, comes ahead of all
times with the new one. -/
theorem ahead_of_all {R : Float → Float → Prop} {best next : Float}
    (refl : ∀ {x}, x.isFinite = true → R x x)
    (trans : ∀ {x y z}, x.isFinite = true → y.isFinite = true → z.isFinite = true →
      R x y → R y z → R x z)
    (listed : best ∈ timesOf ms) (ahead : ∀ t ∈ timesOf ms, R best t)
    (picked : next = best ∧ R best m.counted ∨ next = m.counted ∧ R m.counted best) :
    next ∈ timesOf (ms ++ [m]) ∧ ∀ t ∈ timesOf (ms ++ [m]), R next t := by
  have finite := Stats.sanitized_finite m.time
  simp only [mem_timesOf_append]
  rcases picked with ⟨rfl, kept⟩ | ⟨rfl, passed⟩
  · refine ⟨Or.inl listed, ?_⟩
    rintro t (earlier | rfl)
    · exact ahead t earlier
    · exact kept
  · refine ⟨Or.inr rfl, ?_⟩
    rintro t (earlier | rfl)
    · exact trans finite (finite_of_mem listed) (finite_of_mem earlier) passed (ahead t earlier)
    · exact refl finite

namespace Stats

variable {s : Stats}

/-- What is known of the times of a stage after some measurements of it. -/
structure Spans (s : Stats) (ms : List Measurement) : Prop where
  executions : s.executions = ms.length
  none : ms = [] → s.minTime = 0.0 ∧ s.maxTime = 0.0
  least : ms ≠ [] → IsLeast (timesOf ms) s.minTime
  greatest : ms ≠ [] → IsGreatest (timesOf ms) s.maxTime

theorem spans_new (stage : Stage) : Spans { stage := stage } [] where
  executions := rfl
  none := fun _ => ⟨rfl, rfl⟩
  least := fun some => absurd rfl some
  greatest := fun some => absurd rfl some

theorem record_first (noData : s.hasData = false) (time : Float) (success : Bool) :
    (s.record time success).minTime = sanitized time ∧
      (s.record time success).maxTime = sanitized time := by
  simp only [record, noData, Bool.false_eq_true, if_false, and_self]

theorem record_further (data : s.hasData = true) (time : Float) (success : Bool) :
    (s.record time success).minTime = lesser s.minTime (sanitized time) ∧
      (s.record time success).maxTime = greater s.maxTime (sanitized time) := by
  simp only [record, data, if_true, and_self]

theorem Spans.hasData (spans : s.Spans ms) : s.hasData = decide (ms ≠ []) := by
  rw [Stats.hasData, spans.executions, decide_eq_decide, List.length_pos_iff]

theorem Spans.record_executions (spans : s.Spans ms) (m : Measurement) :
    (s.record m.time m.success).executions = (ms ++ [m]).length := by
  rw [List.length_append, ← spans.executions]
  rfl

/-- The first time is the least and the greatest. -/
theorem Spans.record_first (spans : s.Spans []) (m : Measurement) :
    (s.record m.time m.success).Spans [m] := by
  have finite : m.counted ≤ m.counted := Number.le_refl (sanitized_finite m.time)
  have listed : m.counted ∈ timesOf [m] := List.mem_singleton_self m.counted
  have only : ∀ t ∈ timesOf [m], t = m.counted := fun t => List.mem_singleton.mp
  obtain ⟨minTime, maxTime⟩ := Stats.record_first spans.hasData m.time m.success
  refine ⟨spans.record_executions m, nofun, fun _ => ?_, fun _ => ?_⟩
  · rw [minTime]
    refine ⟨listed, fun t any => ?_⟩
    rwa [only t any]
  · rw [maxTime]
    refine ⟨listed, fun t any => ?_⟩
    rwa [only t any]

/-- Each further time is compared with both. -/
theorem Spans.record_further (spans : s.Spans ms) (some : ms ≠ []) (m : Measurement) :
    (s.record m.time m.success).Spans (ms ++ [m]) := by
  have finite : m.counted.isFinite = true := sanitized_finite m.time
  have data : s.hasData = true := by
    rw [spans.hasData]
    exact decide_eq_true some
  obtain ⟨minTime, maxTime⟩ := Stats.record_further data m.time m.success
  obtain ⟨leastListed, least⟩ := spans.least some
  obtain ⟨greatestListed, greatest⟩ := spans.greatest some
  refine ⟨spans.record_executions m, fun empty => absurd empty (by simp), fun _ => ?_, fun _ => ?_⟩
  · rw [minTime]
    exact ahead_of_all (R := (· ≤ ·)) Number.le_refl Number.le_trans leastListed least
      (lesser_cases (finite_of_mem leastListed) finite)
  · rw [maxTime]
    exact ahead_of_all (R := (· ≥ ·)) Number.le_refl
      (fun x y z first second => Number.le_trans z y x second first) greatestListed greatest
      (greater_cases (finite_of_mem greatestListed) finite)

theorem Spans.record (spans : s.Spans ms) (m : Measurement) :
    (s.record m.time m.success).Spans (ms ++ [m]) := by
  by_cases first : ms = []
  · subst first
    exact spans.record_first m
  · exact spans.record_further first m

theorem spans_recordAll {before : List Measurement} (spans : s.Spans before) (ms : List Measurement) :
    (s.recordAll ms).Spans (before ++ ms) := by
  induction ms generalizing s before with
  | nil => rwa [List.append_nil]
  | cons m ms ih =>
    have next := ih (spans.record m)
    rwa [List.append_assoc] at next

theorem Spans.ordered (spans : s.Spans ms) : s.minTime ≤ s.maxTime := by
  by_cases none : ms = []
  · obtain ⟨minTime, maxTime⟩ := spans.none none
    rw [minTime, maxTime]
    exact Number.le_refl isFinite_zero
  · exact (spans.least none).2 (spans.greatest none).1

end Stats

/-! ## Tables that are measured and cleared -/

namespace StatsTable

inductive Event where
  | record (m : Measurement)
  | reset

def Event.measurement? : Event → Option Measurement
  | .record m => some m
  | .reset => none

/-- Whether an event is about a stage: a measurement of it, or a clearing of all. -/
def Event.concerns (stage : Stage) : Event → Bool
  | .record m => m.stage = stage
  | .reset => true

def act (t : StatsTable) : Event → StatsTable
  | .record m => t.record m.stage m.time m.success
  | .reset => .empty

/-- What is known after some events. -/
def after (events : List Event) : StatsTable := events.foldl act .empty

/-- The measurements that no clearing has followed. -/
def sinceReset (events : List Event) : List Measurement :=
  (events.rtakeWhile (·.measurement?.isSome)).filterMap Event.measurement?

variable {stage : Stage} {events : List Event}

theorem after_append (events : List Event) (e : Event) : after (events ++ [e]) = (after events).act e := by
  rw [after, List.foldl_append]
  rfl

theorem sinceReset_record (events : List Event) (m : Measurement) :
    sinceReset (events ++ [.record m]) = sinceReset events ++ [m] := by
  rw [sinceReset, List.rtakeWhile_concat_pos _ _ _ rfl, List.filterMap_append]
  rfl

theorem sinceReset_reset (events : List Event) : sinceReset (events ++ [.reset]) = [] := by
  rw [sinceReset, List.rtakeWhile_concat_neg _ _ _ (by simp [Event.measurement?])]
  rfl

/-- A table knows what was measured since it was cleared last. -/
theorem after_eq (events : List Event) : after events = StatsTable.empty.recordAll (sinceReset events) := by
  induction events using List.reverseRecOn with
  | nil => rfl
  | append_singleton events e ih =>
    rw [after_append, ih]
    cases e with
    | record m =>
      rw [sinceReset_record, recordAll, recordAll, List.foldl_append]
      rfl
    | reset =>
      rw [sinceReset_reset]
      rfl

/-- What it knows of a stage was measured of that stage. -/
theorem get_after (events : List Event) (stage : Stage) :
    (after events).get stage =
      Stats.recordAll { stage := stage } ((sinceReset events).filter (·.stage = stage)) := by
  rw [after_eq, get_recordAll, StatsTable.empty, PerStage.get_ofFn]

/-- The events that are about a stage leave the same measurements of it as all events do. -/
theorem sinceReset_concerns (events : List Event) (stage : Stage) :
    (sinceReset (events.filter (·.concerns stage))).filter (·.stage = stage) =
      (sinceReset events).filter (·.stage = stage) := by
  induction events using List.reverseRecOn with
  | nil => rfl
  | append_singleton events e ih =>
    rw [List.filter_append]
    cases e with
    | reset =>
      rw [sinceReset_reset, show List.filter (·.concerns stage) [Event.reset] = [.reset] from rfl,
        sinceReset_reset]
    | record m =>
      rw [sinceReset_record, List.filter_append, ← ih]
      by_cases own : m.stage = stage
      · rw [List.filter_cons_of_pos (by simpa [Event.concerns] using own), List.filter_nil,
          sinceReset_record, List.filter_append]
      · rw [List.filter_cons_of_neg (by simpa [Event.concerns] using own), List.filter_nil,
          List.append_nil, List.filter_cons_of_neg (by simpa using own), List.filter_nil, List.append_nil]

theorem length_sinceReset (events : List Event) : (sinceReset events).length ≤ events.length :=
  (List.length_filterMap_le _ _).trans (List.rtakeWhile_suffix _ _).length_le

/-- After any events a stage has as many executions as measurements of it came since the last clearing,
as many errors as of them failed, and their least and greatest time; with none both times are zero. A
time that is negative or not finite counts as zero, and any other as the number that it is. Measurements
of other stages change nothing that is known of it, and what is known of it is told by the events that
are about it, however they are mixed with others. -/
theorem summarised (events : List Event) (stage : Stage) :
    let s := (after events).get stage
    let own := (sinceReset events).filter (·.stage = stage)
    s.executions = own.length ∧ s.errors = own.countP (!·.success) ∧ s.errors ≤ s.executions ∧
    (events.length < UInt64.size → s.executions < UInt64.size) ∧
    (own = [] → s.minTime = 0.0 ∧ s.maxTime = 0.0) ∧
    (own ≠ [] → IsLeast (timesOf own) s.minTime ∧ IsGreatest (timesOf own) s.maxTime) ∧
    s.minTime ≤ s.maxTime ∧
    (∀ m ∈ own, (m.time.isFinite = false ∨ m.time < 0.0 → m.counted = 0.0) ∧
      (m.time.isFinite = true → ¬ m.time < 0.0 → (m.counted == m.time) = true)) ∧
    (∀ m, m.stage ≠ stage → (after (events ++ [.record m])).get stage = s) ∧
    ∀ events', events'.filter (·.concerns stage) = events.filter (·.concerns stage) →
      (after events').get stage = s := by
  intro s own
  have known : s = Stats.recordAll { stage := stage } own := get_after events stage
  have spans : s.Spans own := known ▸ Stats.spans_recordAll (Stats.spans_new stage) own
  have errors : s.errors = own.countP (!·.success) := by
    rw [known, Stats.errors_recordAll]
    exact Nat.zero_add _
  have short : own.length ≤ events.length :=
    (List.length_filter_le _ _).trans (length_sinceReset events)
  refine ⟨spans.executions, errors, ?_, ?_, spans.none, fun some => ⟨spans.least some, spans.greatest some⟩,
    spans.ordered, fun m _ => ⟨Stats.sanitized_zero, Stats.sanitized_beq⟩, ?_, ?_⟩
  · rw [errors, spans.executions]
    exact List.countP_le_length
  · intro fits
    rw [spans.executions]
    exact lt_of_le_of_lt short fits
  · intro m other
    rw [after_append]
    exact get_record_of_ne _ _ _ (Ne.symm other)
  · intro events' same
    rw [get_after, ← sinceReset_concerns, same, sinceReset_concerns]
    exact known.symm

end StatsTable

end ClientMigration
