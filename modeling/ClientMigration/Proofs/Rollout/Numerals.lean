/-
# Proofs.Rollout.Numerals -- percentages beyond 64 bits

A variable with a numeral decides the percentage and nothing else: a configuration
merged with it is the one merged without it, but for the percentage
(`merge_update_percentage`). The number is brought into range if it has room in
64 bits; a number without room, however far out of range, is ignored.

So a numeral is clamped exactly if it has room, or if the percentage in force
already is what it would have been clamped to (`percentage_clamped_iff`).
-/
import Mathlib.Logic.Function.Basic
import ClientMigration.Proofs.Rollout.Environment
import ClientMigration.Proofs.Rollout.Percentages

namespace ClientMigration

set_option autoImplicit false

open Environment

variable {raw : String} {n : Int} {env : Variables}

namespace Environment

/-- Whether a number can be held by 64 bits with a sign. -/
def HasRoom (n : Int) : Prop := -0x8000000000000000 ≤ n ∧ n < 0x8000000000000000

instance : DecidablePred HasRoom := fun _ => inferInstanceAs (Decidable (_ ∧ _))

theorem fitsWord_iff : Datum.fitsWord n = true ↔ HasRoom n := by
  simp [Datum.fitsWord, HasRoom]

/-- Digits write one number. -/
theorem Digits.unique {t : Text} {m k : Nat} (digits : Digits t m) (digits' : Digits t k) : m = k :=
  digits.value.symm.trans digits'.value

theorem Digits.noSign {t : Text} {c : Char} {m : Nat} (digits : Digits (c :: t) m) : c ≠ '+' ∧ c ≠ '-' := by
  have digit := digits.all c List.mem_cons_self
  constructor <;> rintro rfl <;> cases digit

theorem Numeral.unique {t : Text} {m : Int} (numeral : Numeral t n) (numeral' : Numeral t m) : n = m := by
  cases numeral with
  | plain digits =>
    cases numeral' with
    | plain digits' => rw [digits.unique digits']
    | plus _ => exact absurd rfl digits.noSign.1
    | minus _ => exact absurd rfl digits.noSign.2
  | plus digits =>
    cases numeral' with
    | plain digits' => exact absurd rfl digits'.noSign.1
    | plus digits' => rw [digits.unique digits']
  | minus digits =>
    cases numeral' with
    | plain digits' => exact absurd rfl digits'.noSign.2
    | minus digits' => rw [digits.unique digits']

theorem WritesInteger.unique {m : Int} (writes : WritesInteger raw n) (writes' : WritesInteger raw m) :
    n = m := by
  obtain ⟨t, bears, numeral⟩ := writes
  obtain ⟨u, bears', numeral'⟩ := writes'
  have same : t = u := (bears.trim_eq numeral.trimmed).symm.trans (bears'.trim_eq numeral'.trimmed)
  exact numeral.unique (same ▸ numeral')

theorem Numeral.writes (numeral : Numeral raw.toList n) : WritesInteger raw n :=
  ⟨_, ⟨[], [], List.forall_mem_nil _, List.forall_mem_nil _, by simp⟩, numeral⟩

theorem integer?_of_room (writes : WritesInteger raw n) (room : HasRoom n) : integer? raw = some n :=
  integer?_eq_some_iff.mpr ⟨writes, fitsWord_iff.mpr room⟩

theorem integer?_of_noRoom (writes : WritesInteger raw n) (noRoom : ¬ HasRoom n) : integer? raw = none := by
  refine Option.eq_none_iff_forall_ne_some.mpr fun m read => noRoom ?_
  obtain ⟨writes', fits⟩ := integer?_eq_some_iff.mp read
  rw [writes.unique writes']
  exact fitsWord_iff.mp fits

end Environment

namespace RolloutConfig

/-- The variable for the percentage decides the percentage and nothing else. -/
theorem merge_update_percentage (c : RolloutConfig) (env : Variables) (found : Option String) :
    c.merge (Function.update env rolloutPercentage found) =
      { c.merge env with
        percentage := ((found.bind integer?).map clampPercentage).getD c.percentage } := by
  have other (name : String) (distinct : name ≠ rolloutPercentage) :
      Function.update env rolloutPercentage found name = env name := Function.update_of_ne distinct _ _
  simp only [merge, Function.update_self, other useNewClient (by decide),
    other Environment.enabledPaths (by decide), other Environment.disabledPaths (by decide),
    other debug (by decide)]

theorem merge_of_set (c : RolloutConfig) (set : env rolloutPercentage = some raw) :
    c.merge env =
      { c.merge (Function.update env rolloutPercentage none) with
        percentage := ((integer? raw).map clampPercentage).getD c.percentage } := by
  have same : Function.update env rolloutPercentage (some raw) = env := by
    rw [← set, Function.update_eq_self]
  rw [merge_update_percentage]
  conv_lhs => rw [← same, merge_update_percentage]
  rfl

/-- A numeral of any length, with or without a sign and white space around, sets the percentage to the
number brought into range exactly if the number has room in 64 bits, or the percentage was that one
before. Without room the variable counts as not set; with room it decides the percentage alone. -/
theorem percentage_clamped_iff (c : RolloutConfig) (set : env rolloutPercentage = some raw)
    (writes : WritesInteger raw n) :
    let merged := c.merge env
    let unset := c.merge (Function.update env rolloutPercentage none)
    ((merged.percentage : Int) = min (max n 0) 100 ↔
      HasRoom n ∨ (c.percentage : Int) = min (max n 0) 100) ∧
    (HasRoom n → merged = { unset with percentage := (min (max n 0) 100).toNat }) ∧
    (¬ HasRoom n → merged = unset) := by
  intro merged unset
  have kept : unset.percentage = c.percentage := by
    rw [show unset = _ from c.merge_update_percentage env none]
    rfl
  have clamped (room : HasRoom n) : merged = { unset with percentage := (min (max n 0) 100).toNat } := by
    rw [show merged = _ from c.merge_of_set set, integer?_of_room writes room]
    rfl
  have ignored (noRoom : ¬ HasRoom n) : merged = unset := by
    rw [show merged = _ from c.merge_of_set set, integer?_of_noRoom writes noRoom]
    show { unset with percentage := c.percentage } = unset
    rw [← kept]
  refine ⟨?_, clamped, ignored⟩
  by_cases room : HasRoom n
  · rw [clamped room]
    exact ⟨fun _ => Or.inl room, fun _ => clampPercentage_eq n⟩
  · rw [ignored room, kept]
    exact ⟨Or.inr, fun either => either.resolve_left room⟩

/-- The environment with one variable for the percentage. -/
def percentageAlone (raw : String) : Variables := fun name => [(rolloutPercentage, raw)].lookup name

/-- A number out of range but with room is brought into it, zeros in front or not. -/
theorem percentage_140_clamped :
    percentageAlone "\t+00140 " rolloutPercentage = some "\t+00140 " ∧ WritesInteger "\t+00140 " 140 ∧
      (RolloutConfig.merge { percentage := 30 } (percentageAlone "\t+00140 ")).percentage = 100 := by
  have set : percentageAlone "\t+00140 " rolloutPercentage = some "\t+00140 " := rfl
  have read : integer? "\t+00140 " = some 140 := by decide +kernel
  have writes : WritesInteger "\t+00140 " 140 := (integer?_eq_some_iff.mp read).1
  have law := percentage_clamped_iff { percentage := 30 } set writes
  have room : HasRoom 140 := by decide
  exact ⟨set, writes, congrArg RolloutConfig.percentage (law.2.1 room)⟩

/-- The least numbers without room leave the percentage where it was, far from both ends of the range. -/
theorem huge_percentages_ignored :
    (WritesInteger "9223372036854775808" 9223372036854775808 ∧
      (RolloutConfig.merge { percentage := 30 } (percentageAlone "9223372036854775808")).percentage = 30 ∧
      min (max (9223372036854775808 : Int) 0) 100 = 100) ∧
    (WritesInteger "-9223372036854775809" (-9223372036854775809) ∧
      (RolloutConfig.merge { percentage := 30 } (percentageAlone "-9223372036854775809")).percentage = 30 ∧
      min (max (-9223372036854775809 : Int) 0) 100 = 0) := by
  have above : Digits "9223372036854775808".toList 9223372036854775808 :=
    ⟨by decide +kernel, List.all_eq_true.mp (by decide +kernel), by decide +kernel⟩
  have below : Digits "9223372036854775809".toList 9223372036854775809 :=
    ⟨by decide +kernel, List.all_eq_true.mp (by decide +kernel), by decide +kernel⟩
  have signed : "-9223372036854775809".toList = '-' :: "9223372036854775809".toList := by decide +kernel
  refine ⟨⟨Numeral.writes (.plain above), ?_, by decide⟩, Numeral.writes (signed ▸ .minus below), ?_,
    by decide⟩
  · decide +kernel
  · decide +kernel

end RolloutConfig

end ClientMigration
