/-
# Proofs.Rollout.Raising -- a rollout that is raised takes no client away

For each path there is a least percentage from which on a controller decides for
the unified client, or there is none (`least?`). The overrides, the switch, the
lists of paths and the bucket tell it, and the percentage in force does not: that
one only has to reach it (`decide_useNew_iff`).

So the comparisons join up at both ends of the range. Nobody is served at 0 by a
bucket, and at 100 everybody is; a number out of range counts as the end that is
nearer. Asking leaves the least percentage alone (`least?_asks`), and with it every
run that only asks and raises keeps the unified client where it was
(`raising_keeps_unified`).
-/
import ClientMigration.Proofs.Rollout.Forcing

namespace ClientMigration

set_option autoImplicit false

theorem clampPercentage_mono {p q : Int} (raised : p ≤ q) : clampPercentage p ≤ clampPercentage q := by
  unfold clampPercentage
  omega

namespace Controller

variable {σ : Type} {c : Controller σ} {path : Option String}

/-- The least percentage at which a path gets the unified client; none where no percentage is enough. -/
def least? (c : Controller σ) (path : Option String) : Option Nat :=
  match path.bind c.overrides.find? with
  | some useNew => if useNew then some 0 else none
  | none =>
    if !c.config.enabled then none
    else if path.any (matchesPrefix c.config.disabledPaths) then none
    else if c.config.enabledPaths.any (!String.isEmpty ·) then
      if path.any (matchesPrefix c.config.enabledPaths) then some 0 else none
    else some (min (c.assigner.assignment.1.bucket + 1) 100)

/-- A path gets the unified client once its least percentage is reached. -/
theorem decide_useNew_iff (c : Controller σ) (path : Option String) :
    (c.decide path).1.useNew ↔ ∃ least ∈ c.least? path, least ≤ c.config.percentage := by
  unfold decide decideEarly least?
  cases path.bind c.overrides.find? with
  | some useNew => cases useNew <;> simp
  | none =>
    by_cases off : !c.config.enabled
    · simp [off]
    · by_cases denied : path.any (matchesPrefix c.config.disabledPaths)
      · simp [off, denied]
      · by_cases listed : c.config.enabledPaths.any (!String.isEmpty ·)
        · by_cases allowed : path.any (matchesPrefix c.config.enabledPaths)
          · simp [off, denied, listed, allowed]
          · simp [off, denied, listed, allowed]
        · -- the bucket counts strictly between the ends only, and is no obstacle at the upper one
          by_cases partly : 0 < c.config.percentage && c.config.percentage < 100
          · have reached : c.assigner.assignment.1.bucket < c.config.percentage ↔
                min (c.assigner.assignment.1.bucket + 1) 100 ≤ c.config.percentage := by
              simp only [Bool.and_eq_true, decide_eq_true_eq] at partly
              omega
            simpa only [off, denied, listed, partly, if_true, if_false, Bool.false_eq_true,
              Option.mem_some_iff, exists_eq_left', decide_eq_true_eq] using reached
          · have reached : 100 ≤ c.config.percentage ↔
                min (c.assigner.assignment.1.bucket + 1) 100 ≤ c.config.percentage := by
              simp only [Bool.and_eq_true, decide_eq_true_eq] at partly
              omega
            simpa only [off, denied, listed, partly, if_true, if_false, Bool.false_eq_true,
              Option.mem_some_iff, exists_eq_left', decide_eq_true_eq] using reached

/-! ## What leaves the least percentage alone -/

theorem least?_setPercentage (c : Controller σ) (value : Int) (path : Option String) :
    (c.setPercentage value).least? path = c.least? path := rfl

theorem least?_asks (c : Controller σ) {k : Command} (asks : k.Asks) (path : Option String) :
    (c.obey k).2.least? path = c.least? path := by
  obtain ⟨config, overrides⟩ := obey_asks (c := c) asks
  unfold least?
  rw [config, overrides, (c.obey_assigner k).assignment]

/-- Asking decides nothing anew. -/
theorem decide_useNew_asks (c : Controller σ) {k : Command} (asks : k.Asks) (path : Option String) :
    ((c.obey k).2.decide path).1.useNew = (c.decide path).1.useNew := by
  rw [Bool.eq_iff_iff, decide_useNew_iff, decide_useNew_iff, c.least?_asks asks, (obey_asks asks).1]

/-! ## Raising -/

/-- A run that asks and raises: it sets no percentage below the one that was set before. -/
inductive Raises : Int → List Command → Prop where
  | done (p : Int) : Raises p []
  | ask {p : Int} {k : Command} {ks : List Command} : k.Asks → Raises p ks → Raises p (k :: ks)
  | raise {p q : Int} {ks : List Command} : p ≤ q → Raises q ks → Raises p (.setPercentage q :: ks)

/-- The unified client stays when the percentage of a controller is raised. -/
theorem setPercentage_keeps (served : (c.decide path).1.useNew) {q : Int}
    (raised : c.config.percentage ≤ clampPercentage q) :
    ((c.setPercentage q).decide path).1.useNew := by
  rw [decide_useNew_iff] at served ⊢
  obtain ⟨least, isLeast, reached⟩ := served
  exact ⟨least, isLeast, reached.trans raised⟩

theorem Raises.keeps {p : Int} {run : List Command} (raises : Raises p run)
    (inForce : c.config.percentage = clampPercentage p) (served : (c.decide path).1.useNew) :
    ((c.after run).decide path).1.useNew := by
  induction raises generalizing c with
  | done p => exact served
  | @ask p k ks asks _ rest =>
    refine rest ?_ ?_
    · rw [(obey_asks asks).1, inForce]
    · rwa [c.decide_useNew_asks asks]
  | @raise p q ks raised _ rest =>
    refine rest rfl (setPercentage_keeps served ?_)
    rw [inForce]
    exact clampPercentage_mono raised

/-- Raising a rollout takes the unified client away from no path, and from no call without one: be it
that a controller had the higher percentage in the first place, or that its percentage is raised step
by step while it is asked. Numbers out of range are no exception. -/
theorem raising_keeps_unified (c : Controller σ) (path : Option String) {p q : Int} (raised : p ≤ q)
    (served : ((c.setPercentage p).decide path).1.useNew) :
    ((c.setPercentage q).decide path).1.useNew ∧
      ∀ run, Raises p run → (((c.setPercentage p).after run).decide path).1.useNew := by
  refine ⟨?_, fun run raises => raises.keeps rfl served⟩
  have higher : Raises p [.setPercentage q] := .raise raised (.done q)
  exact higher.keeps (c := c.setPercentage p) rfl served

/-- An installation in bucket 20, with one path that is served by an override only. -/
theorem raising_keeps_unified_bucket :
    let c : Controller Memory :=
      { config := { enabled := true, disabledPaths := ["/billing"] }
        overrides := [("/billing/new", true)]
        assigner := { store := Memory.store, newToken := "b",
                      state := { entries := [(userHashKey, "a")] } } }
    ((c.setPercentage 20).decide none).1.useNew = false ∧
      ((c.setPercentage 300).decide none).1.useNew = true ∧
      (((c.setPercentage 21).after [.status, .setPercentage 99]).decide none).1.useNew = true ∧
      ((c.setPercentage (-3)).decide (some "/billing/new")).1.useNew = true := by
  intro c
  have raises : Raises 21 [.status, .setPercentage 99] :=
    .ask trivial (.raise (by decide) (.done 99))
  obtain ⟨atEnd, onTheWay⟩ := raising_keeps_unified c none (p := 21) (q := 300) (by decide) (by decide +kernel)
  exact ⟨by decide +kernel, atEnd, onTheWay _ raises, by decide +kernel⟩

end Controller

end ClientMigration
