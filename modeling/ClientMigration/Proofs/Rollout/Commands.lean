/-
# Proofs.Rollout.Commands -- what can be asked of a controller, in any order

A run gives a controller one command after the other. What runs have in common
is said here: the controller asks its assigner once at most, so whatever the
commands are, the assigner is as it was or has its assignment (`after_assigner`),
and the assignment is the same all along (`after_assignment`). Two controllers
with one configuration, the same overrides and assigners that no answer tells
apart give the same answers, whatever their stores are (`Alike.run`).
-/
import ClientMigration.Rollout.Status
import ClientMigration.Proofs.Rollout.Installation

namespace ClientMigration

set_option autoImplicit false

variable {σ τ : Type}

namespace Controller

/-- What can be asked of a controller. -/
inductive Command where
  | setOverride (path : String) (useNew : Bool)
  | clearOverride (path : String)
  | clearOverrides
  | updateConfig (config : RolloutConfig)
  | setPercentage (value : Int)
  | setEnabled (value : Bool)
  | decide (path : Option String)
  | shouldUseNew (path : Option String)
  | assignment
  | status

/-- What a controller says to a command. -/
inductive Answer where
  | done
  | cleared (previous? : Option Bool)
  | decision (d : Decision)
  | choice (useNew : Bool)
  | assignment (a : Assignment)
  | status (s : RolloutStatus)

/-- The answer to a command, and the controller after it. -/
def obey (c : Controller σ) : Command → Answer × Controller σ
  | .setOverride path useNew => (.done, c.setOverride path useNew)
  | .clearOverride path => (c.clearOverride path).map .cleared id
  | .clearOverrides => (.done, c.clearOverrides)
  | .updateConfig config => (.done, c.updateConfig config)
  | .setPercentage value => (.done, c.setPercentage value)
  | .setEnabled value => (.done, c.setEnabled value)
  | .decide path => (c.decide path).map .decision id
  | .shouldUseNew path => (c.shouldUseNew path).map .choice id
  | .assignment => c.assignment.map .assignment id
  | .status => c.status.map .status id

/-- The controller after a run. -/
def after (c : Controller σ) : List Command → Controller σ
  | [] => c
  | k :: ks => (c.obey k).2.after ks

/-- The answers of a run, one for each command. -/
def answers (c : Controller σ) : List Command → List Answer
  | [] => []
  | k :: ks => (c.obey k).1 :: (c.obey k).2.answers ks

theorem obey_status (c : Controller σ) : (c.obey .status).1 =
    .status ⟨(c.assignment.2.decide none).2.config, c.assignment.1,
      (c.assignment.2.decide none).2.assigner.hasher, (c.assignment.2.decide none).2.overrides,
      (c.assignment.2.decide none).1⟩ :=
  rfl

/-! ## Decisions -/

/-- A decision leaves all but the assigner alone, and asks the assigner where no early rule decides. -/
theorem decide_eq (c : Controller σ) (path : Option String) :
    (∃ d, decideEarly c.config c.overrides path = some d ∧ c.decide path = (d, c)) ∨
      (decideEarly c.config c.overrides path = none ∧
        c.decide path =
          (⟨c.assigner.assignment.1.bucket < c.config.percentage,
              .bucket c.assigner.assignment.1.bucket c.config.percentage⟩,
            { c with assigner := c.assigner.assignment.2 })) := by
  unfold decide
  cases early : decideEarly c.config c.overrides path with
  | some d => exact Or.inl ⟨d, rfl, rfl⟩
  | none => exact Or.inr ⟨rfl, rfl⟩

theorem decide_config (c : Controller σ) (path : Option String) :
    (c.decide path).2.config = c.config := by
  rcases c.decide_eq path with ⟨d, _, made⟩ | ⟨_, made⟩ <;> rw [made]

theorem decide_overrides (c : Controller σ) (path : Option String) :
    (c.decide path).2.overrides = c.overrides := by
  rcases c.decide_eq path with ⟨d, _, made⟩ | ⟨_, made⟩ <;> rw [made]

theorem decide_assigner (c : Controller σ) (path : Option String) :
    Assigner.IsOrAsked c.assigner (c.decide path).2.assigner := by
  rcases c.decide_eq path with ⟨d, _, made⟩ | ⟨_, made⟩
  · rw [made]
    exact Or.inl rfl
  · rw [made]
    exact Or.inr rfl

/-! ## The assigner of a run -/

/-- No command does more to the assigner than ask it. -/
theorem obey_assigner (c : Controller σ) (k : Command) :
    Assigner.IsOrAsked c.assigner (c.obey k).2.assigner := by
  cases k with
  | decide path => exact c.decide_assigner path
  | shouldUseNew path => exact c.decide_assigner path
  | assignment => exact Or.inr rfl
  | status =>
      have asked : Assigner.IsOrAsked c.assigner c.assignment.2.assigner := Or.inr rfl
      exact asked.step (c.assignment.2.decide_assigner none)
  | _ => exact Or.inl rfl

theorem after_assigner (c : Controller σ) (ks : List Command) :
    Assigner.IsOrAsked c.assigner (c.after ks).assigner := by
  induction ks generalizing c with
  | nil => exact Or.inl rfl
  | cons k ks rest => exact (c.obey_assigner k).step (rest (c.obey k).2)

/-- Whenever it is asked for in a run, the assignment is the one of the start. -/
theorem after_assignment (c : Controller σ) (ks : List Command) :
    (c.after ks).assignment.1 = c.assignment.1 :=
  (c.after_assigner ks).assignment

/-- The assignment is the same in all answers that tell it. -/
theorem answers_assignment {c : Controller σ} {ks : List Command} {a : Assignment}
    (told : .assignment a ∈ c.answers ks) : a = c.assignment.1 := by
  induction ks generalizing c with
  | nil => cases told
  | cons k ks rest =>
      rcases List.mem_cons.mp told with now | later
      · cases k with
        | assignment => exact Answer.assignment.inj now
        | _ => cases now
      · rw [rest later]
        exact (c.obey_assigner k).assignment

/-! ## Controllers that answer alike -/

/-- A relation of assigners that no answer tells apart, now or after they were asked. -/
structure Mirrors (R : Assigner σ → Assigner τ → Prop) : Prop where
  hasher : ∀ {a b}, R a b → b.hasher = a.hasher
  assignment : ∀ {a b}, R a b → b.assignment.1 = a.assignment.1
  asked : ∀ {a b}, R a b → R a.assignment.2 b.assignment.2

/-- Assigners that spread tokens alike and have the same assignment. -/
def Agree (a : Assigner σ) (b : Assigner τ) : Prop :=
  b.hasher = a.hasher ∧ b.assignment.1 = a.assignment.1

theorem mirrors_agree : Mirrors (@Agree σ τ) where
  hasher := fun agree => agree.1
  assignment := fun agree => agree.2
  asked := by
    intro a b ⟨hasher, assignment⟩
    constructor
    · rw [Assigner.assignment_hasher, Assigner.assignment_hasher, hasher]
    · rw [Assigner.assignment_again, Assigner.assignment_again, assignment]

/-- Two controllers that agree on all that answers depend on. -/
structure Alike (R : Assigner σ → Assigner τ → Prop) (c : Controller σ) (c' : Controller τ) :
    Prop where
  config : c'.config = c.config
  overrides : c'.overrides = c.overrides
  assigner : R c.assigner c'.assigner

section

variable {R : Assigner σ → Assigner τ → Prop} {c : Controller σ} {c' : Controller τ}

theorem Alike.ask (mirrors : Mirrors R) (alike : Alike R c c') :
    Alike R c.assignment.2 c'.assignment.2 where
  config := alike.config
  overrides := alike.overrides
  assigner := mirrors.asked alike.assigner

theorem Alike.decide (mirrors : Mirrors R) (alike : Alike R c c') (path : Option String) :
    (c'.decide path).1 = (c.decide path).1 ∧ Alike R (c.decide path).2 (c'.decide path).2 := by
  have same : decideEarly c'.config c'.overrides path = decideEarly c.config c.overrides path := by
    rw [alike.config, alike.overrides]
  rcases c.decide_eq path with ⟨d, early, made⟩ | ⟨late, made⟩
  · rcases c'.decide_eq path with ⟨d', early', made'⟩ | ⟨late', _⟩
    · rw [made, made']
      rw [same, early] at early'
      exact ⟨(Option.some.inj early').symm, alike⟩
    · rw [same, early] at late'
      cases late'
  · rcases c'.decide_eq path with ⟨d', early', _⟩ | ⟨_, made'⟩
    · rw [same, late] at early'
      cases early'
    · rw [made, made']
      refine ⟨?_, alike.ask mirrors⟩
      rw [mirrors.assignment alike.assigner, alike.config]

theorem Alike.obey (mirrors : Mirrors R) (alike : Alike R c c') (k : Command) :
    (c'.obey k).1 = (c.obey k).1 ∧ Alike R (c.obey k).2 (c'.obey k).2 := by
  obtain ⟨config, overrides, assigner⟩ := alike
  have alike : Alike R c c' := ⟨config, overrides, assigner⟩
  cases k with
  | setOverride path useNew =>
      refine ⟨rfl, config, ?_, assigner⟩
      show c'.overrides.insert path useNew = c.overrides.insert path useNew
      rw [overrides]
  | clearOverride path =>
      constructor
      · show Answer.cleared (c'.overrides.find? path) = Answer.cleared (c.overrides.find? path)
        rw [overrides]
      · refine ⟨config, ?_, assigner⟩
        show c'.overrides.erase path = c.overrides.erase path
        rw [overrides]
  | clearOverrides => exact ⟨rfl, config, rfl, assigner⟩
  | updateConfig new => exact ⟨rfl, rfl, overrides, assigner⟩
  | setPercentage value =>
      refine ⟨rfl, ?_, overrides, assigner⟩
      show { c'.config with percentage := clampPercentage value } = _
      rw [config]
      rfl
  | setEnabled value =>
      refine ⟨rfl, ?_, overrides, assigner⟩
      show { c'.config with enabled := value } = _
      rw [config]
      rfl
  | decide path =>
      obtain ⟨same, alike⟩ := alike.decide mirrors path
      exact ⟨congrArg Answer.decision same, alike⟩
  | shouldUseNew path =>
      obtain ⟨same, alike⟩ := alike.decide mirrors path
      exact ⟨congrArg (fun d : Decision => Answer.choice d.useNew) same, alike⟩
  | assignment =>
      exact ⟨congrArg Answer.assignment (mirrors.assignment assigner), alike.ask mirrors⟩
  | status =>
      obtain ⟨same, alike'⟩ := (alike.ask mirrors).decide mirrors none
      refine ⟨?_, alike'⟩
      rw [obey_status, obey_status, alike'.config, alike'.overrides,
        mirrors.hasher alike'.assigner, same]
      show Answer.status ⟨_, c'.assigner.assignment.1, _, _, _⟩ = _
      rw [mirrors.assignment assigner]
      rfl

/-- Controllers that are alike give the same answers in every run, and stay alike. -/
theorem Alike.run (mirrors : Mirrors R) (alike : Alike R c c') (ks : List Command) :
    c'.answers ks = c.answers ks ∧ Alike R (c.after ks) (c'.after ks) := by
  induction ks generalizing c c' with
  | nil => exact ⟨rfl, alike⟩
  | cons k ks rest =>
      obtain ⟨same, alike⟩ := alike.obey mirrors k
      obtain ⟨sameRest, alike⟩ := rest alike
      exact ⟨by rw [answers, answers, same, sameRest], alike⟩

end

end Controller

end ClientMigration
