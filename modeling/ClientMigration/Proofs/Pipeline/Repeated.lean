/-
# Proofs.Pipeline.Repeated -- a stage that is asked for more than once

Whether the measurements decide the order is told by how many of the stages asked
for have been measured. The count is over what was asked for, so a stage that is
asked for twice counts twice, and its own measurements decide the order against
stages that nothing is known of: it goes ahead of all of them, or behind all of
them if it fails (`order_oneMeasured`).

So one measured stage leaves the order of the ranks where no stage is asked for
twice, and elsewhere exactly if that order already has the stage where its
measurements put it (`order_oneMeasured_iff`). `repeated_stage_overtakes` is a
request for which it has not.
-/
import ClientMigration.Proofs.Pipeline.Order

namespace ClientMigration.Optimizer

set_option autoImplicit false

variable (o : Optimizer) {stages : List Stage} {a b : Stage}

/-- At most one stage has been measured, however often it is asked for. -/
def OneMeasured (stages : List Stage) : Prop :=
  ∀ a ∈ stages, ∀ b ∈ stages, o.isMeasured a → o.isMeasured b → a = b

/-- Whether the measurements of one stage put another stage in front: itself if it does not fail, and
the others if it does. -/
def isAhead (stages : List Stage) (stage : Stage) : Bool :=
  o.isMeasured stage != stages.any o.isFailing

instance (stages : List Stage) : Decidable (o.OneMeasured stages) :=
  inferInstanceAs (Decidable (∀ a ∈ stages, ∀ b ∈ stages, o.isMeasured a → o.isMeasured b → a = b))

/-! ## The key of a stage that has not been measured -/

theorem averageTime_unmeasured (unmeasured : ¬ o.isMeasured a) : (o.stats.get a).averageTime = 0.0 :=
  if_neg unmeasured

theorem not_isFailing_unmeasured (unmeasured : ¬ o.isMeasured a) : o.isFailing a = false := by
  have rate : (o.stats.get a).errorRate = 0.0 := if_neg unmeasured
  have below : decide (errorRateThreshold < 0.0) = false := by decide +kernel
  rw [isFailing, rate]
  exact below

/-- A measured stage that does not fail comes ahead of those that have not been measured. -/
theorem key_lt_unmeasured (measured : o.isMeasured a) (healthy : o.isFailing a = false)
    (unmeasured : ¬ o.isMeasured b) : o.key a < o.key b := by
  simp only [key, healthy, o.not_isFailing_unmeasured unmeasured, measured, unmeasured,
    Prod.Lex.toLex_lt_toLex]
  simp

/-- A stage that fails comes behind those that have not been measured. -/
theorem unmeasured_lt_key (failing : o.isFailing a) (unmeasured : ¬ o.isMeasured b) :
    o.key b < o.key a := by
  simp only [key, failing, o.not_isFailing_unmeasured unmeasured, Prod.Lex.toLex_lt_toLex]
  simp

/-- Stages that have not been measured come by rank. -/
theorem key_le_of_unmeasured (first : ¬ o.isMeasured a) (second : ¬ o.isMeasured b)
    (rank : o.ranks.get a ≤ o.ranks.get b) : o.key a ≤ o.key b := by
  simp only [key, o.not_isFailing_unmeasured first, o.not_isFailing_unmeasured second,
    o.averageTime_unmeasured first, o.averageTime_unmeasured second, first, second,
    Prod.Lex.toLex_le_toLex]
  simp [rank]

/-- Stages that are in the order of their ranks stay there. -/
theorem sort_of_pairwise (byRank : stages.Pairwise fun a b => o.ranks.get a ≤ o.ranks.get b) :
    o.ranks.sort stages = stages :=
  ((o.sort_iff stages).mp ⟨List.Perm.refl _, byRank, fun _ => rfl⟩).symm

/-! ## The order with one measured stage -/

variable {o}

theorem OneMeasured.across (one : o.OneMeasured stages) (a_in : a ∈ stages) (b_in : b ∈ stages)
    (ahead : o.isAhead stages a) (behind : ¬ o.isAhead stages b) : o.key a < o.key b := by
  unfold isAhead at ahead behind
  cases fails : stages.any o.isFailing with
  | true =>
    obtain ⟨s, s_in, failing⟩ := List.any_eq_true.mp fails
    have measured : o.isMeasured s := by
      by_contra unmeasured
      rw [o.not_isFailing_unmeasured unmeasured] at failing
      cases failing
    rw [fails] at ahead behind
    have same : b = s := one b b_in s s_in (by simpa using behind) measured
    rw [same]
    exact o.unmeasured_lt_key failing (by simpa using ahead)
  | false =>
    have healthy : o.isFailing a = false := by simpa using List.any_eq_false.mp fails a a_in
    rw [fails] at ahead behind
    exact o.key_lt_unmeasured (by simpa using ahead) healthy (by simpa using behind)

theorem OneMeasured.within (one : o.OneMeasured stages) (a_in : a ∈ stages) (b_in : b ∈ stages)
    (side : o.isAhead stages a = o.isAhead stages b) (rank : o.ranks.get a ≤ o.ranks.get b) :
    o.key a ≤ o.key b := by
  have both : o.isMeasured a = o.isMeasured b := by simpa [isAhead] using side
  by_cases measured : o.isMeasured a
  · rw [one a a_in b b_in measured (both ▸ measured)]
  · exact o.key_le_of_unmeasured measured (both ▸ measured) rank

/-- The measurements of one stage take it to the front of the order by rank, or, if it fails, to the
back. -/
theorem order_oneMeasured (one : o.OneMeasured stages) (adaptive : ¬ o.FallsBack stages) :
    o.order stages = parted (o.isAhead stages) (o.ranks.sort stages) := by
  have listed (s : Stage) : s ∈ o.ranks.sort stages → s ∈ stages := (o.sort_perm stages).mem_iff.mp
  have byRank := ((o.sort_iff (o.ranks.sort stages)).mpr rfl).sorted
  refine ((o.order_adaptive_iff adaptive _).mp (stableSort_parted ?_ ?_)).symm
  · exact fun a here b there => one.across (listed a here) (listed b there)
  · exact byRank.imp_of_mem fun here there rank side => one.within (listed _ here) (listed _ there) side rank

/-- A stage that is asked for once counts once. -/
theorem OneMeasured.fallsBack_of_nodup (one : o.OneMeasured stages) (distinct : stages.Nodup) :
    o.FallsBack stages := by
  refine Or.inl ?_
  rw [List.countP_eq_length_filter]
  have apart := distinct.filter o.isMeasured
  cases measured : stages.filter o.isMeasured with
  | nil => simp
  | cons a rest =>
    cases rest with
    | nil => simp
    | cons b rest =>
      have a_listed : a ∈ stages.filter o.isMeasured := by simp [measured]
      have b_listed : b ∈ stages.filter o.isMeasured := by simp [measured]
      obtain ⟨a_in, a_measured⟩ := List.mem_filter.mp a_listed
      obtain ⟨b_in, b_measured⟩ := List.mem_filter.mp b_listed
      have same := one a a_in b b_in a_measured b_measured
      simp [measured, same] at apart

/-- With one measured stage the order is that of the ranks where no stage is asked for twice. In
general it is so exactly if the measurements decide nothing, or if the order by rank has nothing in
front of the stage if it does not fail, and nothing behind it if it does. -/
theorem order_oneMeasured_iff (one : o.OneMeasured stages) :
    (stages.Nodup → o.order stages = o.ranks.sort stages) ∧
    (o.order stages = o.ranks.sort stages ↔
      o.FallsBack stages ∨
        (o.ranks.sort stages).Pairwise fun a b => o.isAhead stages b → o.isAhead stages a) := by
  refine ⟨fun distinct => o.order_fallsBack (one.fallsBack_of_nodup distinct), ?_⟩
  by_cases fallsBack : o.FallsBack stages
  · exact iff_of_true (o.order_fallsBack fallsBack) (Or.inl fallsBack)
  · rw [order_oneMeasured one fallsBack, parted_eq_iff]
    simp [fallsBack]

/-- A measured stage that is in front by its rank stays there, though it is asked for twice. -/
theorem repeated_stage_in_front :
    let o := ({} : Optimizer).record .auth 1.0 true
    o.OneMeasured [.auth, .auth, .custom] ∧ ¬ o.FallsBack [.auth, .auth, .custom] ∧
      o.order [.auth, .auth, .custom] = [.auth, .auth, .custom] := by
  intro o
  have one : o.OneMeasured [.auth, .auth, .custom] := by decide +kernel
  have adaptive : ¬ o.FallsBack [.auth, .auth, .custom] := by
    rw [← isAdaptive_iff]
    decide +kernel
  have byRank : o.ranks.sort [.auth, .auth, .custom] = [.auth, .auth, .custom] :=
    o.sort_of_pairwise (by decide +kernel)
  have inFront : [Stage.auth, .auth, .custom].Pairwise fun a b =>
      o.isAhead [.auth, .auth, .custom] b → o.isAhead [.auth, .auth, .custom] a := by decide +kernel
  have unmoved := (order_oneMeasured_iff one).2.mpr (Or.inr (by rw [byRank]; exact inFront))
  exact ⟨one, adaptive, unmoved.trans byRank⟩

/-- A measured stage that is asked for twice goes ahead of a stage of a lower rank of which nothing is
known. -/
theorem repeated_stage_overtakes :
    let o := ({} : Optimizer).record .auth 1.0 true
    o.OneMeasured [.logging, .auth, .auth] ∧
      o.ranks.sort [.logging, .auth, .auth] = [.logging, .auth, .auth] ∧
      o.order [.logging, .auth, .auth] = [.auth, .auth, .logging] := by
  intro o
  have one : o.OneMeasured [.logging, .auth, .auth] := by decide +kernel
  have adaptive : ¬ o.FallsBack [.logging, .auth, .auth] := by
    rw [← isAdaptive_iff]
    decide +kernel
  have byRank : o.ranks.sort [.logging, .auth, .auth] = [.logging, .auth, .auth] :=
    o.sort_of_pairwise (by decide +kernel)
  refine ⟨one, byRank, ?_⟩
  rw [order_oneMeasured one adaptive, byRank]
  decide +kernel

end ClientMigration.Optimizer
