/-
# Proofs.Rollout.Installation -- the token of an installation, and its assignment

An assigner asks its store once. What it makes of the answers is told case by
case (`load_cases`); in each case the assignment has the token of the
installation (`load_token`): the one that is in the store, or the new one where
that is blank, missing or out of reach. From the first time on the assignment is
known, and asking again changes nothing (`assignment_again`).
-/
import ClientMigration.Rollout.Assignment
import ClientMigration.Proofs.Text.Trimmed

namespace ClientMigration

set_option autoImplicit false

variable {σ : Type}

/-- The token that a store gives an installation: the one it holds unless that is blank or cannot be
read, and else the new one. -/
def installedToken (store : Store σ) (state : σ) (newToken : String) : String :=
  match (store.get userHashKey state).1 with
  | .ok (some token) => if Assigner.isBlankToken token then newToken else token
  | .ok none | .error _ => newToken

namespace Assigner

theorem notBlank_of_mem {token : String} {c : Char} (mem : c ∈ token.toList)
    (visible : Text.isBlank c = false) : isBlankToken token = false := by
  refine List.isEmpty_eq_false_iff.mpr fun empty => ?_
  have blank := Text.trim_eq_nil_iff.mp empty c mem
  rw [visible] at blank
  cases blank

/-- Whatever the random bytes are, the token made of them is not blank. -/
theorem tokenOf_notBlank (random : List UInt8) : isBlankToken (tokenOf random) = false := by
  have mem : '-' ∈ (tokenOf random).toList := by
    simp [tokenOf, List.intercalate, List.intersperse]
  exact notBlank_of_mem mem (by decide)

/-! ## The first time -/

/-- The state of the store after it was read. -/
def readState (a : Assigner σ) : σ := (a.store.get userHashKey a.state).2

/-- The store has no token to give: it holds none, or a blank one. -/
def FoundNone (a : Assigner σ) : Prop :=
  ∃ found, (a.store.get userHashKey a.state).1 = .ok found ∧ ∀ token ∈ found, isBlankToken token

/-- An assignment is made from what the store holds, from a new token that was written or could not
be, or from a new token without a try to write it. -/
theorem load_cases (a : Assigner σ) :
    (∃ token, (a.store.get userHashKey a.state).1 = .ok (some token) ∧ isBlankToken token = false ∧
      a.load = (.of a.hasher token true, a.readState)) ∨
    (a.FoundNone ∧ (a.store.set userHashKey a.newToken a.readState).1 = .ok () ∧
      a.load = (.of a.hasher a.newToken true,
        (a.store.set userHashKey a.newToken a.readState).2)) ∨
    (a.FoundNone ∧ (∃ e, (a.store.set userHashKey a.newToken a.readState).1 = .error e) ∧
      a.load = (.of a.hasher a.newToken false,
        (a.store.set userHashKey a.newToken a.readState).2)) ∨
    ((∃ e, (a.store.get userHashKey a.state).1 = .error e) ∧
      a.load = (.of a.hasher a.newToken false, a.readState)) := by
  unfold load FoundNone readState
  rcases a.store.get userHashKey a.state with ⟨e | found, s⟩
  · exact Or.inr (Or.inr (Or.inr ⟨⟨e, rfl⟩, rfl⟩))
  · cases usable : found.filter (!isBlankToken ·) with
    | some token =>
        obtain ⟨rfl, notBlank⟩ := Option.filter_eq_some_iff.mp usable
        exact Or.inl ⟨token, rfl, by simpa using notBlank, by simp only [usable]⟩
    | none =>
        have none : ∃ found', (Except.ok found : Except StoreFault (Option String)) = .ok found' ∧
            ∀ token ∈ found', isBlankToken token :=
          ⟨found, rfl, by simpa using Option.filter_eq_none_iff.mp usable⟩
        simp only [usable]
        rcases a.store.set userHashKey a.newToken s with ⟨e | _, s'⟩
        · exact Or.inr (Or.inr (Or.inl ⟨none, ⟨e, rfl⟩, rfl⟩))
        · exact Or.inr (Or.inl ⟨none, rfl, rfl⟩)

theorem FoundNone.installedToken {a : Assigner σ} (none : a.FoundNone) :
    installedToken a.store a.state a.newToken = a.newToken := by
  obtain ⟨found, read, blank⟩ := none
  unfold ClientMigration.installedToken
  rw [read]
  cases found with
  | none => rfl
  | some token => exact if_pos (blank token rfl)

/-- Whichever way an assignment is made, it has the token of the installation and its bucket. -/
theorem load_token (a : Assigner σ) :
    ∃ persisted, a.load.1 = .of a.hasher (installedToken a.store a.state a.newToken) persisted := by
  rcases a.load_cases with ⟨token, read, notBlank, made⟩ | ⟨none, _, made⟩ | ⟨none, _, made⟩ |
    ⟨⟨e, read⟩, made⟩
  · refine ⟨true, ?_⟩
    unfold installedToken
    rw [made, read]
    simp [notBlank]
  · exact ⟨true, by rw [made, none.installedToken]⟩
  · exact ⟨false, by rw [made, none.installedToken]⟩
  · refine ⟨false, ?_⟩
    unfold installedToken
    rw [made, read]

/-! ## From then on -/

theorem assignment_of_current {a : Assigner σ} {x : Assignment} (known : a.current? = some x) :
    a.assignment = (x, a) := by
  unfold assignment
  rw [known]

theorem assignment_of_none {a : Assigner σ} (new : a.current? = none) :
    a.assignment = (a.load.1, { a with state := a.load.2, current? := some a.load.1 }) := by
  unfold assignment
  rw [new]

/-- The assignment is known from the first time on. -/
theorem assignment_current (a : Assigner σ) : a.assignment.2.current? = some a.assignment.1 := by
  cases known : a.current? with
  | some x => rw [assignment_of_current known, known]
  | none => rw [assignment_of_none known]

/-- Asking a second time changes nothing. -/
theorem assignment_again (a : Assigner σ) : a.assignment.2.assignment = a.assignment := by
  rw [assignment_of_current a.assignment_current]

theorem assignment_hasher (a : Assigner σ) : a.assignment.2.hasher = a.hasher := by
  cases known : a.current? with
  | some x => rw [assignment_of_current known]
  | none => rw [assignment_of_none known]

/-- An assigner that has been asked or has not. -/
def IsOrAsked (a b : Assigner σ) : Prop := b = a ∨ b = a.assignment.2

theorem IsOrAsked.step {a b c : Assigner σ} (first : IsOrAsked a b) (second : IsOrAsked b c) :
    IsOrAsked a c := by
  rcases second with rfl | rfl
  · exact first
  · right
    rcases first with rfl | rfl
    · rfl
    · rw [assignment_again]

theorem IsOrAsked.assignment {a b : Assigner σ} (asked : IsOrAsked a b) :
    b.assignment.1 = a.assignment.1 := by
  rcases asked with rfl | rfl
  · rfl
  · rw [assignment_again]

end Assigner

end ClientMigration
