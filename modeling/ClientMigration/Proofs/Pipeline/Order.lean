/-
# Proofs.Pipeline.Order -- the order of stages is a stable sort

The order of stages is the stable sort by rank where the measurements say too
little or cannot be true (`Optimizer.FallsBack`), and otherwise the stable sort of
that by the key of the adaptive order. Both keys end in the rank, so stages of
different ranks come in one order however they are listed (`order_stable`).
-/
import Mathlib.Data.Prod.Lex
import ClientMigration.Proofs.Data.StableSort
import ClientMigration.Proofs.Pipeline.Times

namespace ClientMigration

set_option autoImplicit false

/-! ## The keys -/

namespace OrderKey

/-- The key as a tuple in the lexicographic order. -/
def tuple (k : OrderKey) : Bool ×ₗ Bool ×ₗ ℤ ×ₗ ℕ :=
  toLex (k.failing, toLex (k.unmeasured, toLex (k.time, k.rank)))

theorem compare_isLE_iff (a b : OrderKey) : (compare a b).isLE = true ↔ a.tuple ≤ b.tuple := by
  unfold compare tuple
  simp only [Ordering.isLE_then_iff_or, Prod.Lex.toLex_le_toLex, compare_lt_iff_lt, compare_eq_iff_eq,
    Std.isLE_compare]

end OrderKey

namespace Optimizer

variable (o : Optimizer) {stages other : List Stage}

def isMeasured (stage : Stage) : Bool := 0 < (o.stats.get stage).executions

/-- Whether a stage failed more often than one time in ten. -/
def isFailing (stage : Stage) : Bool := errorRateThreshold < (o.stats.get stage).errorRate

/-- What the adaptive order goes by, the first difference deciding. -/
def key (stage : Stage) : Bool ×ₗ Bool ×ₗ ℤ ×ₗ ℕ :=
  toLex (o.isFailing stage, toLex (!o.isMeasured stage,
    toLex (OrderKey.place (o.stats.get stage).averageTime, o.ranks.get stage)))

theorem orderKey_tuple (stage : Stage) : (o.orderKey stage).tuple = o.key stage := rfl

theorem isFailing_of_key_le {a b : Stage} (le : o.key a ≤ o.key b) (failing : o.isFailing a) :
    o.isFailing b := by
  rcases Prod.Lex.toLex_le_toLex.mp le with less | ⟨same, _⟩
  · exact le_of_lt less failing
  · have same : o.isFailing a = o.isFailing b := same
    rwa [← same]

/-- Among measured stages that both fail or both do not, the time decides. -/
theorem not_faster_of_key_le {a b : Stage} (le : o.key a ≤ o.key b)
    (side : o.isFailing a = o.isFailing b) (measured : o.isMeasured a) (measured' : o.isMeasured b) :
    ¬ (o.stats.get b).averageTime < (o.stats.get a).averageTime := by
  intro faster
  have before := OrderKey.place_lt_place faster
  unfold key at le
  rw [side, measured, measured'] at le
  simp only [Prod.Lex.toLex_le_toLex, lt_self_iff_false, false_or, true_and] at le
  rcases le with less | ⟨same, _⟩
  · exact absurd before less.asymm
  · exact before.ne same.symm

/-! ## The order of stages -/

/-- The measurements do not decide the order: there are too few, some stage failed more often than it
ran, or a mean is no number. -/
def FallsBack (stages : List Stage) : Prop :=
  stages.countP o.isMeasured < 2 ∨
    ∃ s ∈ stages, (o.stats.get s).executions < (o.stats.get s).errors ∨
      (o.stats.get s).averageTime.isFinite = false

theorem isAdaptive_iff : o.isAdaptive stages = true ↔ ¬ o.FallsBack stages := by
  simp only [isAdaptive, FallsBack, isSound, List.countP_eq_length_filter, Bool.and_eq_true,
    decide_eq_true_eq, List.all_eq_true, not_or, not_lt, not_exists, not_and, Bool.not_eq_false]
  rfl

theorem fallsBack_perm (perm : other.Perm stages) : o.FallsBack other ↔ o.FallsBack stages := by
  unfold FallsBack
  rw [perm.countP_eq]
  simp only [perm.mem_iff]

theorem sort_iff (out : List Stage) : StableSort o.ranks.get stages out ↔ out = o.ranks.sort stages :=
  stableSort_iff (fun _ _ => decide_eq_true_iff) stages out

theorem sort_perm (stages : List Stage) : (o.ranks.sort stages).Perm stages := List.mergeSort_perm _ _

theorem order_fallsBack (fallsBack : o.FallsBack stages) : o.order stages = o.ranks.sort stages := by
  have notAdaptive : o.isAdaptive (o.ranks.sort stages) ≠ true := by
    rw [ne_eq, isAdaptive_iff, fallsBack_perm o (o.sort_perm stages), not_not]
    exact fallsBack
  exact if_neg notAdaptive

theorem order_adaptive_iff (adaptive : ¬ o.FallsBack stages) (out : List Stage) :
    StableSort o.key (o.ranks.sort stages) out ↔ out = o.order stages := by
  have isAdaptive : o.isAdaptive (o.ranks.sort stages) = true := by
    rw [isAdaptive_iff, fallsBack_perm o (o.sort_perm stages)]
    exact adaptive
  have sorted : o.order stages = (o.ranks.sort stages).mergeSort
      fun a b => ((o.orderKey a).compare (o.orderKey b)).isLE := if_pos isAdaptive
  rw [sorted]
  exact stableSort_iff (fun a b => OrderKey.compare_isLE_iff (o.orderKey a) (o.orderKey b)) _ out

/-- No stage is lost, and none comes twice. -/
theorem order_perm (stages : List Stage) : (o.order stages).Perm stages := by
  by_cases fallsBack : o.FallsBack stages
  · rw [o.order_fallsBack fallsBack]
    exact o.sort_perm stages
  · exact ((o.order_adaptive_iff fallsBack _).mpr rfl).perm.trans (o.sort_perm stages)

/-- Stages of different ranks come in one order, however they are listed. -/
theorem order_of_perm (distinct : ∀ a ∈ stages, ∀ b ∈ stages, o.ranks.get a = o.ranks.get b → a = b)
    (perm : other.Perm stages) : o.order other = o.order stages := by
  have byRank : o.ranks.sort other = o.ranks.sort stages :=
    ((o.sort_iff _).mpr rfl).eq_of_distinct ((o.sort_iff _).mpr rfl) perm distinct
  by_cases fallsBack : o.FallsBack stages
  · rw [o.order_fallsBack fallsBack, o.order_fallsBack ((o.fallsBack_perm perm).mpr fallsBack), byRank]
  · have adaptive := (o.order_adaptive_iff (mt (o.fallsBack_perm perm).mp fallsBack) _).mpr rfl
    rw [byRank] at adaptive
    exact (o.order_adaptive_iff fallsBack _).mp adaptive

/-- The order of stages is a permutation of them. Where the measurements do not decide it is the one
stable sort by rank, and otherwise the one stable sort of that by the key: no failing stage comes ahead
of one that does not fail, and of two measured stages on one side the slower is never ahead of the
faster. Stages of different ranks come in one order, however they are listed. -/
theorem order_stable (stages : List Stage) :
    (o.order stages).Perm stages ∧
    (∀ out, StableSort o.ranks.get stages out ↔ out = o.ranks.sort stages) ∧
    (o.FallsBack stages → o.order stages = o.ranks.sort stages) ∧
    (¬ o.FallsBack stages →
      (∀ out, StableSort o.key (o.ranks.sort stages) out ↔ out = o.order stages) ∧
      (o.order stages).Pairwise (fun a b => o.isFailing a → o.isFailing b) ∧
      (o.order stages).Pairwise (fun a b => o.isFailing a = o.isFailing b → o.isMeasured a →
        o.isMeasured b → ¬ (o.stats.get b).averageTime < (o.stats.get a).averageTime)) ∧
    ((∀ a ∈ stages, ∀ b ∈ stages, o.ranks.get a = o.ranks.get b → a = b) →
      ∀ other, other.Perm stages → o.order other = o.order stages) := by
  refine ⟨o.order_perm stages, o.sort_iff, o.order_fallsBack, fun adaptive => ?_,
    fun distinct other perm => o.order_of_perm distinct perm⟩
  have sorted := ((o.order_adaptive_iff adaptive _).mpr rfl).sorted
  exact ⟨o.order_adaptive_iff adaptive, sorted.imp fun {a b} => o.isFailing_of_key_le,
    sorted.imp fun {a b} => o.not_faster_of_key_le⟩

/-- A fast stage comes ahead of a slow one of a lower rank. -/
theorem order_stable_overtaken :
    let o := (({} : Optimizer).record .logging 80.0 true).record .auth 1.0 true
    ¬ o.FallsBack [.logging, .auth] ∧ o.order [.logging, .auth] = [.auth, .logging] := by
  intro o
  have adaptive : ¬ o.FallsBack [.logging, .auth] := by
    rw [← isAdaptive_iff]
    decide +kernel
  obtain ⟨perm, _, _, adapts, _⟩ := o.order_stable [.logging, .auth]
  obtain ⟨_, _, ordered⟩ := adapts adaptive
  refine ⟨adaptive, (List.perm_pair.mp perm).resolve_left fun kept => ?_⟩
  rw [kept, List.pairwise_pair] at ordered
  exact ordered (by decide +kernel) (by decide +kernel) (by decide +kernel) (by decide +kernel)

end Optimizer

end ClientMigration
