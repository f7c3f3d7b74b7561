/-
# Proofs.Rollout.Unasked -- decisions that do not look at the installation

The rules in front of the bucket see the configuration, the overrides and the path.
A decision of theirs is the same on every installation (`elsewhere`), whatever its
token, its hasher and its store are, and leaves the assigner as it was
(`decide_elsewhere`). Which rule decides is no matter of the installation either
(`byBucket_iff`).

A step that decides nothing by the bucket does the same on every installation and
leaves it alone (`obey_elsewhere`), so a run of such steps does (`run_elsewhere`): its
answers tell nothing about the installation, and a store that logs what it is asked
sees nothing. Once a bucket has decided, the assignment is there to stay
(`after_known`), so an installation without one has had no such decision.
-/
import ClientMigration.Proofs.Rollout.Assignments

namespace ClientMigration

set_option autoImplicit false

variable {σ τ : Type}

/-- The bucket of the installation decided. -/
def Reason.ByBucket : Reason → Prop
  | .bucket .. => True
  | _ => False

instance : DecidablePred Reason.ByBucket
  | .bucket .. => isTrue trivial
  | .override | .disabled | .deniedPath | .allowedPath | .notAllowListed | .percentage _ => isFalse id

namespace Controller

/-- A command whose answer tells of the installation. -/
def Command.Tells : Command → Prop
  | .assignment | .status => True
  | _ => False

/-- The decision that a command asks for, if it says it or only what comes of it. -/
def decision? (c : Controller σ) : Command → Option Decision
  | .decide path | .shouldUseNew path => some (c.decide path).1
  | _ => none

/-- The decisions of a run. -/
def decisions (c : Controller σ) : List Command → List Decision
  | [] => []
  | k :: ks => (c.decision? k).toList ++ (c.obey k).2.decisions ks

/-- The controller on another installation: with the same configuration and overrides. -/
def elsewhere (c : Controller σ) (b : Assigner τ) : Controller τ :=
  { config := c.config, overrides := c.overrides, assigner := b }

variable {c : Controller σ}

/-! ## One decision -/

theorem decideEarly_not_byBucket {config : RolloutConfig} {overrides : Table Bool}
    {path : Option String} {d : Decision} (early : decideEarly config overrides path = some d) :
    ¬ d.reason.ByBucket := by
  unfold decideEarly at early
  repeat' split at early
  all_goals cases early
  all_goals exact id

/-- It takes no installation to tell whether the bucket decides. -/
theorem byBucket_iff (c : Controller σ) (path : Option String) :
    (c.decide path).1.reason.ByBucket ↔ decideEarly c.config c.overrides path = none := by
  rcases c.decide_eq path with ⟨d, early, made⟩ | ⟨late, made⟩
  · rw [made, early]
    exact iff_of_false (decideEarly_not_byBucket early) nofun
  · rw [made, late]
    exact iff_of_true trivial rfl

/-- What the bucket does not decide is decided alike everywhere, and nothing is asked for it. -/
theorem decide_elsewhere {path : Option String} (other : ¬ (c.decide path).1.reason.ByBucket)
    (b : Assigner τ) : (c.elsewhere b).decide path = ((c.decide path).1, c.elsewhere b) := by
  rcases c.decide_eq path with ⟨d, early, made⟩ | ⟨late, _⟩
  · rcases (c.elsewhere b).decide_eq path with ⟨d', early', made'⟩ | ⟨late', _⟩
    · cases early.symm.trans early'
      rw [made, made']
    · cases early.symm.trans late'
  · exact absurd ((c.byBucket_iff path).mpr late) other

theorem decide_stays {path : Option String} (other : ¬ (c.decide path).1.reason.ByBucket) :
    (c.decide path).2 = c :=
  congrArg Prod.snd (decide_elsewhere other c.assigner)

/-! ## Runs -/

/-- A step that neither tells of the installation nor decides by its bucket. -/
theorem obey_elsewhere {k : Command} (silent : ¬ k.Tells)
    (other : ∀ d ∈ c.decision? k, ¬ d.reason.ByBucket) (b : Assigner τ) :
    (c.elsewhere b).obey k = ((c.obey k).1, (c.obey k).2.elsewhere b) := by
  cases k with
  | decide path =>
    have stays : (c.obey (.decide path)).2 = c := decide_stays (other _ rfl)
    rw [stays, obey, decide_elsewhere (other _ rfl) b]
    rfl
  | shouldUseNew path =>
    have stays : (c.obey (.shouldUseNew path)).2 = c := decide_stays (other _ rfl)
    rw [stays, obey, shouldUseNew, decide_elsewhere (other _ rfl) b]
    rfl
  | assignment | status => exact absurd trivial silent
  | _ => rfl

theorem decision?_elsewhere {k : Command} (other : ∀ d ∈ c.decision? k, ¬ d.reason.ByBucket)
    (b : Assigner τ) : (c.elsewhere b).decision? k = c.decision? k := by
  cases k with
  | decide path | shouldUseNew path =>
    exact congrArg (fun made => some made.1) (decide_elsewhere (other _ rfl) b)
  | _ => rfl

theorem run_elsewhere {run : List Command} (silent : ∀ k ∈ run, ¬ k.Tells)
    (other : ∀ d ∈ c.decisions run, ¬ d.reason.ByBucket) (b : Assigner τ) :
    (c.elsewhere b).answers run = c.answers run ∧
      (c.elsewhere b).decisions run = c.decisions run ∧
      (c.elsewhere b).after run = (c.after run).elsewhere b := by
  induction run generalizing c with
  | nil => exact ⟨rfl, rfl, rfl⟩
  | cons k ks rest =>
    obtain ⟨first, others⟩ := List.forall_mem_cons.mp silent
    obtain ⟨now, later⟩ := List.forall_mem_append.mp other
    have now : ∀ d ∈ c.decision? k, ¬ d.reason.ByBucket :=
      fun d made => now d (Option.mem_toList.mpr made)
    obtain ⟨answers, decisions, after⟩ := rest others later
    rw [Controller.answers, Controller.decisions, Controller.after, obey_elsewhere first now b,
      decision?_elsewhere now b, answers, decisions, after]
    exact ⟨rfl, rfl, rfl⟩

/-! ## Decisions by the bucket -/

theorem after_known {x : Assignment} (known : c.assigner.current? = some x) (ks : List Command) :
    (c.after ks).assigner.current? = some x := by
  rcases c.after_assigner ks with same | asked
  · rw [same, known]
  · rw [asked, Assigner.assignment_of_current known, known]

theorem known_of_byBucket {k : Command} {d : Decision} (made : d ∈ c.decision? k)
    (bucket : d.reason.ByBucket) : (c.obey k).2.assigner.current? = some c.assigner.assignment.1 := by
  have asked {path : Option String} (bucket : (c.decide path).1.reason.ByBucket) :
      (c.decide path).2.assigner.current? = some c.assigner.assignment.1 := by
    rcases c.decide_eq path with ⟨d, early, _⟩ | ⟨_, late⟩
    · cases early.symm.trans ((c.byBucket_iff path).mp bucket)
    · rw [late]
      exact c.assigner.assignment_current
  cases k with
  | decide path | shouldUseNew path =>
    cases made
    exact asked bucket
  | _ => cases made

/-- A run in which a bucket decides leaves the assignment known. -/
theorem after_byBucket {run : List Command} {d : Decision} (made : d ∈ c.decisions run)
    (bucket : d.reason.ByBucket) : (c.after run).assigner.current?.isSome := by
  induction run generalizing c with
  | nil => cases made
  | cons k ks rest =>
    rcases List.mem_append.mp made with now | later
    · have known := known_of_byBucket (Option.mem_toList.mp now) bucket
      exact Option.isSome_of_mem (after_known known ks)
    · exact rest later

/-- Only the bucket rule looks at the installation. What another rule decides is decided alike for
every token, hasher and store, whether that fails or not, and the store is not asked. A run of
overrides, settings and decisions of which none is by the bucket has the same answers and decisions on
every installation; it leaves the assigner as it was, and a store that logs what it is asked logs
nothing. And the assignment is there after a run, if it was not before, exactly if a bucket decided. -/
theorem only_buckets_ask (c : Controller σ) :
    (∀ path, ¬ (c.decide path).1.reason.ByBucket → ∀ {τ : Type} (b : Assigner τ),
      (c.elsewhere b).decide path = ((c.decide path).1, c.elsewhere b) ∧
      ∀ log, ((c.elsewhere (b.logged log)).decide path).2.assigner.state = (b.state, log)) ∧
    ∀ run, (∀ k ∈ run, ¬ k.Tells) →
      ((∀ d ∈ c.decisions run, ¬ d.reason.ByBucket) → ∀ {τ : Type} (b : Assigner τ),
        (c.elsewhere b).answers run = c.answers run ∧
        (c.elsewhere b).decisions run = c.decisions run ∧
        ((c.elsewhere b).after run).assigner = b ∧
        ∀ log, ((c.elsewhere (b.logged log)).after run).assigner.state = (b.state, log)) ∧
      (c.assigner.current? = none →
        ((c.after run).assigner.current? = none ↔ ∀ d ∈ c.decisions run, ¬ d.reason.ByBucket)) := by
  refine ⟨fun path other τ b => ⟨decide_elsewhere other b, fun log => ?_⟩,
    fun run silent => ⟨fun other τ b => ?_, fun new => ⟨fun unknown d made bucket => ?_, fun other => ?_⟩⟩⟩
  · rw [decide_elsewhere other (b.logged log)]
    rfl
  · obtain ⟨answers, decisions, after⟩ := run_elsewhere silent other b
    refine ⟨answers, decisions, congrArg assigner after, fun log => ?_⟩
    rw [(run_elsewhere silent other (b.logged log)).2.2]
    rfl
  · have known := after_byBucket made bucket
    rw [unknown] at known
    cases known
  · have same : c.after run = (c.after run).elsewhere c.assigner :=
      (run_elsewhere silent other c.assigner).2.2
    rw [same]
    exact new

/-- All are let in, but for an override and a denied path, and then nobody is: an installation that
cannot read its token sees no difference. Once half of them are let in, the assignment is there. -/
theorem only_buckets_ask_ends :
    let c : Controller Memory :=
      new { enabled := true, percentage := 255, disabledPaths := ["/legacy"] }
        { store := Memory.store, state := {}, newToken := "a" }
    let b : Assigner Memory :=
      { store := Memory.store, state := { refusesReads := true }, hasher := .charSum, newToken := "b" }
    let run := [.setOverride "/billing" false, .decide (some "/billing"), .decide (some "/legacy/x"),
      .shouldUseNew none, .setPercentage 0, .decide none]
    (c.elsewhere b).answers run = c.answers run ∧
      ((c.elsewhere (b.logged [])).after run).assigner.state = (b.state, []) ∧
      (c.after run).assigner.current? = none ∧
      (c.after [.setPercentage 50, .decide none]).assigner.current? ≠ none := by
  intro c b run
  have silent : ∀ k ∈ run, ¬ k.Tells := by
    simp [run, Command.Tells]
  have other : ∀ d ∈ c.decisions run, ¬ d.reason.ByBucket := by decide +kernel
  obtain ⟨_, onRuns⟩ := only_buckets_ask c
  obtain ⟨elsewhere, unknown_iff⟩ := onRuns run silent
  obtain ⟨answers, _, _, log⟩ := elsewhere other b
  refine ⟨answers, log [], (unknown_iff rfl).mpr other, fun unknown => ?_⟩
  have half : ∀ k ∈ [Command.setPercentage 50, .decide none], ¬ k.Tells := by
    simp [Command.Tells]
  have none := ((onRuns _ half).2 rfl).mp unknown
  exact absurd none (by decide +kernel)

end Controller

end ClientMigration
