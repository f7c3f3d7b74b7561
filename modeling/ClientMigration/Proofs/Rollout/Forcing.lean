/-
# Proofs.Rollout.Forcing -- one answer for every path

The two forcing commands of the console leave a controller whose rules say the
same of every path, before the assignment would be asked for (`Unanimous`):
overrides are gone, and either the switch is off, or it is on with no path listed
and everybody let in. What a controller was through before plays no part.

Asking changes neither the configuration nor the overrides, so a controller that
is unanimous stays so however often it is asked (`Unanimous.after`), and every
answer on the way tells the one decision (`Unanimous.answers`).
-/
import ClientMigration.Rollout.Console
import ClientMigration.Proofs.Rollout.Commands

namespace ClientMigration

set_option autoImplicit false

namespace Controller

variable {σ : Type} {c : Controller σ} {d : Decision}

/-- A command that asks, and sets nothing. -/
def Command.Asks : Command → Prop
  | .decide _ | .shouldUseNew _ | .assignment | .status => True
  | _ => False

/-- The same decision for every path and for none, by a rule that does not ask for the assignment. -/
def Unanimous (d : Decision) (c : Controller σ) : Prop :=
  ∀ path, decideEarly c.config c.overrides path = some d

theorem Unanimous.decide (unanimous : Unanimous d c) (path : Option String) :
    c.decide path = (d, c) := by
  rcases c.decide_eq path with ⟨d', early, made⟩ | ⟨late, _⟩
  · cases (unanimous path).symm.trans early
    exact made
  · cases (unanimous path).symm.trans late

/-- Asking leaves all that the early rules look at. -/
theorem obey_asks {k : Command} (asks : k.Asks) :
    (c.obey k).2.config = c.config ∧ (c.obey k).2.overrides = c.overrides := by
  cases k with
  | decide path => exact ⟨c.decide_config path, c.decide_overrides path⟩
  | shouldUseNew path => exact ⟨c.decide_config path, c.decide_overrides path⟩
  | assignment => exact ⟨rfl, rfl⟩
  | status => exact ⟨c.assignment.2.decide_config none, c.assignment.2.decide_overrides none⟩
  | _ => cases asks

theorem Unanimous.obey (unanimous : Unanimous d c) {k : Command} (asks : k.Asks) :
    Unanimous d (c.obey k).2 := by
  obtain ⟨config, overrides⟩ := obey_asks (c := c) asks
  intro path
  rw [config, overrides]
  exact unanimous path

theorem Unanimous.after (unanimous : Unanimous d c) {ks : List Command}
    (asks : ∀ k ∈ ks, k.Asks) : Unanimous d (c.after ks) := by
  induction ks generalizing c with
  | nil => exact unanimous
  | cons k ks rest =>
      obtain ⟨first, others⟩ := List.forall_mem_cons.mp asks
      exact rest (unanimous.obey first) others

/-- An answer that tells no other decision. -/
def Answer.Tells (d : Decision) : Answer → Prop
  | .decision d' => d' = d
  | .choice useNew => useNew = d.useNew
  | .status s => s.defaultDecision = d
  | .done | .cleared _ | .assignment _ => True

theorem Unanimous.answer (unanimous : Unanimous d c) {k : Command} (asks : k.Asks) :
    (c.obey k).1.Tells d := by
  cases k with
  | decide path => exact congrArg Prod.fst (unanimous.decide path)
  | shouldUseNew path => exact congrArg (·.1.useNew) (unanimous.decide path)
  | assignment => trivial
  | status =>
      have asked : Unanimous d c.assignment.2 := unanimous.obey (k := .assignment) trivial
      exact congrArg Prod.fst (asked.decide none)
  | _ => cases asks

theorem Unanimous.answers (unanimous : Unanimous d c) {ks : List Command}
    (asks : ∀ k ∈ ks, k.Asks) : ∀ answer ∈ c.answers ks, answer.Tells d := by
  induction ks generalizing c with
  | nil => exact List.forall_mem_nil _
  | cons k ks rest =>
      obtain ⟨first, others⟩ := List.forall_mem_cons.mp asks
      exact List.forall_mem_cons.mpr ⟨unanimous.answer first, rest (unanimous.obey first) others⟩

end Controller

/-! ## Forcing -/

namespace Console

open Controller

variable {σ : Type}

theorem forceNew_unanimous (c : Controller σ) : Unanimous ⟨true, .percentage 100⟩ (forceNew c) := by
  intro path
  cases path <;> rfl

theorem forceOld_unanimous (c : Controller σ) : Unanimous ⟨false, .disabled⟩ (forceOld c) := by
  intro path
  cases path <;> rfl

/-- Whatever a controller was through, forcing it decides every path and no path alike, for as long as
it is only asked. The debug mode stays, and so do the store and the assignment, which no decision asks
for from then on. -/
theorem forced_decides_all (c : Controller σ) (questions : List Command)
    (asks : ∀ k ∈ questions, k.Asks) :
    (∀ path, let forced := (forceNew c).after questions
      forced.decide path = (⟨true, .percentage 100⟩, forced)) ∧
    (∀ path, let forced := (forceOld c).after questions
      forced.decide path = (⟨false, .disabled⟩, forced)) ∧
    (∀ answer ∈ (forceNew c).answers questions, answer.Tells ⟨true, .percentage 100⟩) ∧
    (∀ answer ∈ (forceOld c).answers questions, answer.Tells ⟨false, .disabled⟩) ∧
    (∀ forced ∈ [forceNew c, forceOld c],
      forced.config.debugMode = c.config.debugMode ∧ forced.assigner = c.assigner ∧
        Assigner.IsOrAsked c.assigner (forced.after questions).assigner ∧
        (forced.after questions).assignment.1 = c.assignment.1) := by
  have new := forceNew_unanimous c
  have old := forceOld_unanimous c
  refine ⟨fun path => (new.after asks).decide path, fun path => (old.after asks).decide path,
    new.answers asks, old.answers asks, fun forced listed => ?_⟩
  have kept : forced.config.debugMode = c.config.debugMode ∧ forced.assigner = c.assigner := by
    simp only [List.mem_cons, List.not_mem_nil, or_false] at listed
    rcases listed with rfl | rfl
    · exact ⟨rfl, rfl⟩
    · exact ⟨rfl, rfl⟩
  refine ⟨kept.1, kept.2, kept.2 ▸ forced.after_assigner questions, ?_⟩
  rw [forced.after_assignment]
  exact congrArg (·.assignment.1) kept.2

/-- Lists of paths, a percentage and an override that spoke against it count no more. -/
theorem forced_decides_all_listed :
    let c : Controller Memory :=
      { config := { enabled := true, percentage := 30, enabledPaths := ["/admin"],
                    disabledPaths := ["/admin/legacy"] }
        overrides := [("/billing", false)]
        assigner := { store := Memory.store, state := {}, newToken := "a" } }
    (c.decide (some "/billing")).1.useNew = false ∧
      (((forceNew c).after [.status, .decide none]).decide (some "/billing")).1.useNew = true ∧
      (c.decide (some "/admin/users")).1.useNew = true ∧
      (((forceOld c).after [.status, .decide none]).decide (some "/admin/users")).1.useNew = false := by
  intro c
  have asks : ∀ k ∈ [Command.status, .decide none], k.Asks :=
    List.forall_mem_cons.mpr ⟨trivial, List.forall_mem_singleton.mpr trivial⟩
  obtain ⟨new, old, _⟩ := forced_decides_all c [.status, .decide none] asks
  exact ⟨by decide, congrArg (·.1.useNew) (new (some "/billing")), by decide +kernel,
    congrArg (·.1.useNew) (old (some "/admin/users"))⟩

end Console

end ClientMigration
