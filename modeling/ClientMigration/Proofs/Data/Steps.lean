/-
# Proofs.Data.Steps -- lists of steps that may fail

A list is read whole exactly if each of its members is (`mapM_eq_some_iff`), so what
undoes a step for every member undoes it for the list, and the other way round
(`mapM_map_some`, `eq_map_of_mapM`). What every step keeps is kept by all of them
one after the other (`foldlM_keep`).
-/
import Mathlib.Data.List.Basic

namespace ClientMigration

set_option autoImplicit false

variable {α β : Type}

/-- A list is read whole exactly if each of its members is. -/
theorem mapM_eq_some_iff {f : α → Option β} {xs : List α} {ys : List β} :
    xs.mapM f = some ys ↔ xs.map f = ys.map some := by
  induction xs generalizing ys with
  | nil => cases ys <;> simp
  | cons x xs ih =>
    rw [List.mapM_cons, List.map_cons, eq_comm (b := ys.map some), List.map_eq_cons_iff]
    constructor
    · intro read
      simp only [Option.bind_eq_bind, Option.bind_eq_some_iff, Option.pure_def, Option.some.injEq] at read
      obtain ⟨y, first, rest, others, rfl⟩ := read
      exact ⟨y, rest, rfl, first.symm, (ih.mp others).symm⟩
    · rintro ⟨y, rest, rfl, first, others⟩
      rw [← first, ih.mpr others.symm]
      rfl

/-- A step that undoes another one gives back what that one was done to. -/
theorem mapM_map_some {f : α → Option β} {g : β → α} (undoes : ∀ y, f (g y) = some y) (ys : List β) :
    (ys.map g).mapM f = some ys := by
  rw [mapM_eq_some_iff, List.map_map]
  exact List.map_congr_left fun y _ => undoes y

/-- What is read by undoing a step is that step done to what was read. -/
theorem eq_map_of_mapM {f : α → Option β} {g : β → α} (undoes : ∀ x y, f x = some y → x = g y)
    {xs : List α} {ys : List β} (read : xs.mapM f = some ys) : xs = ys.map g := by
  rw [mapM_eq_some_iff] at read
  induction xs generalizing ys with
  | nil => rw [List.map_eq_nil_iff.mp read.symm, List.map_nil]
  | cons x xs ih =>
    obtain ⟨y, rest, rfl, first, others⟩ := List.map_eq_cons_iff.mp read.symm
    rw [List.map_cons, ← undoes x y first.symm, ← ih others.symm]

/-- What every step keeps is kept by all of them. -/
theorem foldlM_keep {Inv : α → Prop} {step : α → β → Option α} {xs : List β}
    (keep : ∀ x ∈ xs, ∀ a b, step a x = some b → Inv a → Inv b) {start a : α}
    (run : xs.foldlM step start = some a) (initial : Inv start) : Inv a := by
  induction xs generalizing start with
  | nil =>
    cases run
    exact initial
  | cons x xs ih =>
    rw [List.foldlM_cons, Option.bind_eq_bind, Option.bind_eq_some_iff] at run
    obtain ⟨b, first, rest⟩ := run
    exact ih (fun y listed => keep y (List.mem_cons_of_mem _ listed)) rest
      (keep x List.mem_cons_self _ _ first initial)

end ClientMigration
