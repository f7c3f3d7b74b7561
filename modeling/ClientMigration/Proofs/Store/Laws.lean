/-
# Proofs.Store.Laws -- what users of a store may rely on

A store may fail, and in any pattern. What it may not do is to give a text that
it does not hold, to forget what it said it wrote, or to touch other keys. These
laws are stated against what the store holds, which no operation shows directly.

A memory keeps them, and a store that keeps them still does when a script makes
any of its operations fail (`Keeps.faltering`).
-/
import ClientMigration.Store.Basic

namespace ClientMigration

set_option autoImplicit false

variable {σ α : Type}

namespace Store

/-- The laws of a store, where `holds` tells what it holds under a key. -/
structure Keeps (store : Store σ) (holds : String → σ → Option String) : Prop where
  /-- What was read is what is held. -/
  get_ok : ∀ {key s found}, (store.get key s).1 = .ok found → found = holds key s
  /-- Reading changes nothing. -/
  get_holds : ∀ key s other, holds other (store.get key s).2 = holds other s
  /-- What was written is held. -/
  set_ok : ∀ {key value s}, (store.set key value s).1 = .ok () →
    holds key (store.set key value s).2 = some value
  /-- Writing under a key leaves the others alone, whether it succeeds or not. -/
  set_other : ∀ {key other} value s, key ≠ other →
    holds other (store.set key value s).2 = holds other s
  /-- And so does removing. -/
  remove_other : ∀ {key other} s, key ≠ other →
    holds other (store.remove key s).2 = holds other s

end Store

namespace Memory

def holds (key : String) (m : Memory) : Option String := m.entries.find? key

theorem store_keeps : store.Keeps holds where
  get_ok := by
    intro key m found read
    change (get key m).1 = _ at read
    unfold get at read
    by_cases refuses : m.refusesReads
    · rw [if_pos refuses] at read
      cases read
    · rw [if_neg refuses] at read
      exact (Except.ok.inj read).symm
  get_holds := fun _ _ _ => rfl
  set_ok := by
    intro key value m written
    change (set key value m).1 = _ at written
    show holds key (set key value m).2 = some value
    unfold set at written ⊢
    split
    · rename_i refuses
      rw [if_pos refuses] at written
      cases written
    · exact Table.find?_insert_self m.entries key value
  set_other := by
    intro key other value m distinct
    show holds other (set key value m).2 = holds other m
    unfold set
    split
    · rfl
    · exact Table.find?_insert_of_ne m.entries value distinct.symm
  remove_other := by
    intro key other m distinct
    show holds other (remove key m).2 = holds other m
    unfold remove
    split
    · rfl
    · exact Table.find?_erase_of_ne m.entries distinct.symm

end Memory

/-! ## Stores that fail at any time -/

/-- An operation that fails when the script says so, or when it does by itself. -/
def falter (op : σ → Except StoreFault α × σ) (s : σ × List Bool) :
    Except StoreFault α × (σ × List Bool) :=
  if s.2.headD false then (.error .unavailable, (s.1, s.2.tail))
  else ((op s.1).1, ((op s.1).2, s.2.tail))

/-- A store with a script: one entry for each operation, true to make it fail. -/
def Store.faltering (store : Store σ) : Store (σ × List Bool) where
  get key := falter (store.get key)
  set key value := falter (store.set key value)
  remove key := falter (store.remove key)

theorem falter_ok {op : σ → Except StoreFault α × σ} {s : σ × List Bool} {x : α}
    (done : (falter op s).1 = .ok x) : (op s.1).1 = .ok x ∧ (falter op s).2.1 = (op s.1).2 := by
  unfold falter at done ⊢
  split at done
  · cases done
  · rename_i goesOn
    rw [if_neg goesOn]
    exact ⟨done, rfl⟩

theorem falter_state (op : σ → Except StoreFault α × σ) (s : σ × List Bool) :
    (falter op s).2.1 = s.1 ∨ (falter op s).2.1 = (op s.1).2 := by
  unfold falter
  split
  · exact Or.inl rfl
  · exact Or.inr rfl

/-- Failing more often breaks no law. -/
theorem Store.Keeps.faltering {store : Store σ} {holds : String → σ → Option String}
    (keeps : store.Keeps holds) : store.faltering.Keeps fun key s => holds key s.1 where
  get_ok := fun read => keeps.get_ok (falter_ok read).1
  get_holds := by
    intro key s other
    rcases falter_state (store.get key) s with same | done
    · exact congrArg (holds other) same
    · exact (congrArg (holds other) done).trans (keeps.get_holds key s.1 other)
  set_ok := by
    intro key value s written
    obtain ⟨done, state⟩ := falter_ok written
    exact (congrArg (holds key) state).trans (keeps.set_ok done)
  set_other := by
    intro key other value s distinct
    rcases falter_state (store.set key value) s with same | done
    · exact congrArg (holds other) same
    · exact (congrArg (holds other) done).trans (keeps.set_other value s.1 distinct)
  remove_other := by
    intro key other s distinct
    rcases falter_state (store.remove key) s with same | done
    · exact congrArg (holds other) same
    · exact (congrArg (holds other) done).trans (keeps.remove_other s.1 distinct)

end ClientMigration
