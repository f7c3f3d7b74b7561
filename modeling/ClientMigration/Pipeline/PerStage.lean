/-
# Pipeline.PerStage -- one value for each stage

The stages are a closed set, so a table over them is a structure: it cannot grow,
and reading a stage always gives a value.
-/
import ClientMigration.Vocabulary

namespace ClientMigration

set_option autoImplicit false

structure PerStage (α : Type) where
  logging : α
  auth : α
  custom : α
  retry : α
  error : α
  deriving DecidableEq, Repr

namespace PerStage

variable {α β : Type}

def ofFn (f : Stage → α) : PerStage α := ⟨f .logging, f .auth, f .custom, f .retry, f .error⟩

def get (t : PerStage α) : Stage → α
  | .logging => t.logging
  | .auth => t.auth
  | .custom => t.custom
  | .retry => t.retry
  | .error => t.error

def set (t : PerStage α) (s : Stage) (x : α) : PerStage α :=
  match s with
  | .logging => { t with logging := x }
  | .auth => { t with auth := x }
  | .custom => { t with custom := x }
  | .retry => { t with retry := x }
  | .error => { t with error := x }

/-- The values in the order of the stages. -/
def toList (t : PerStage α) : List α := Stage.all.map t.get

theorem get_ofFn (f : Stage → α) (s : Stage) : (ofFn f).get s = f s := by cases s <;> rfl

theorem get_set_self (t : PerStage α) (s : Stage) (x : α) : (t.set s x).get s = x := by
  cases s <;> rfl

theorem get_set_of_ne (t : PerStage α) {s other : Stage} (x : α) (h : other ≠ s) :
    (t.set s x).get other = t.get other := by
  cases s <;> cases other <;> first | rfl | exact absurd rfl h

end PerStage

end ClientMigration
