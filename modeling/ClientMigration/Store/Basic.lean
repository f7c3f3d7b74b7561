/-
# Store.Basic -- texts that outlive a run

A store keeps texts under keys. It is given by its operations on a state, each of
which may fail; what happens to the state is the store's own affair.
-/
import ClientMigration.Data.Table

namespace ClientMigration

set_option autoImplicit false

/-- Why a store does not answer. -/
inductive StoreFault where
  /-- The file cannot be read or written. -/
  | io
  /-- The file does not hold a table of texts. -/
  | corrupt
  /-- The store refuses. -/
  | unavailable
  deriving DecidableEq, Repr

/-- A store whose state is a `σ`. -/
structure Store (σ : Type) where
  get : String → σ → Except StoreFault (Option String) × σ
  set : String → String → σ → Except StoreFault Unit × σ
  remove : String → σ → Except StoreFault Unit × σ

/-- The state of a store in memory, which may refuse to be read or to be written. -/
structure Memory where
  entries : Table String := []
  refusesReads : Bool := false
  refusesWrites : Bool := false
  deriving DecidableEq, Repr

namespace Memory

def get (key : String) (m : Memory) : Except StoreFault (Option String) × Memory :=
  (if m.refusesReads then .error .unavailable else .ok (m.entries.find? key), m)

def set (key value : String) (m : Memory) : Except StoreFault Unit × Memory :=
  if m.refusesWrites then (.error .unavailable, m)
  else (.ok (), { m with entries := m.entries.insert key value })

def remove (key : String) (m : Memory) : Except StoreFault Unit × Memory :=
  if m.refusesWrites then (.error .unavailable, m)
  else (.ok (), { m with entries := m.entries.erase key })

def store : Store Memory := ⟨get, set, remove⟩

end Memory

end ClientMigration
