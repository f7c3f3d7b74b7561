/-
# Proofs.Rollout.Decisions -- a run of a controller, and the rules that it follows

What a controller decides depends on its configuration, its overrides and the
token of the installation only. A `Policy` is just that, with the overrides as a
map; commands change it in the way their names say, and six rules read a decision
off it, of which the first that applies counts.

A controller follows its policy through every run (`Follows.after`), so each
decision on the way is the one of the first rule that applies
(`decided_by_first_rule`): whatever the store holds, whichever of its operations
fail, and however the commands are mixed.
-/
import Mathlib.Logic.Function.Basic
import Mathlib.Tactic.SplitIfs
import ClientMigration.Proofs.Rollout.Commands

namespace ClientMigration

set_option autoImplicit false

variable {σ : Type}

/-! ## Policies -/

/-- What decisions depend on. -/
structure Policy where
  /-- The configuration in force. -/
  config : RolloutConfig
  /-- The overrides that are still set. -/
  overrides : String → Option Bool
  hasher : Hasher
  /-- The token of the installation. -/
  token : String

namespace Policy

/-- Some entry that is not empty is the beginning of the path. -/
def Covers (listed : List String) (path : String) : Prop :=
  ∃ p ∈ listed, p ≠ "" ∧ p.toList <+: path.toList

instance (listed : List String) (path : String) : Decidable (Covers listed path) :=
  inferInstanceAs (Decidable (∃ p ∈ listed, p ≠ "" ∧ p.toList <+: path.toList))

/-- What a rule decides for a path where it applies. -/
abbrev Rule := Policy → Option String → Option Decision

/-- An override of exactly this path. -/
def overridden : Rule := fun v path =>
  (path.bind v.overrides).map fun value => ⟨value, .override⟩

/-- The switch is off. -/
def switchedOff : Rule := fun v _ =>
  if v.config.enabled then none else some ⟨false, .disabled⟩

/-- The path begins with a denied one. -/
def denied : Rule := fun v path =>
  if ∃ p ∈ path, Covers v.config.disabledPaths p then some ⟨false, .deniedPath⟩ else none

/-- Some allowed path is configured, and the path begins with one or with none. -/
def listed : Rule := fun v path =>
  if ∃ p ∈ v.config.enabledPaths, p ≠ "" then
    if ∃ p ∈ path, Covers v.config.enabledPaths p then some ⟨true, .allowedPath⟩
    else some ⟨false, .notAllowListed⟩
  else none

/-- The percentage is strictly between 0 and 100. -/
def partly : Rule := fun v _ =>
  let bucket := v.hasher.bucket v.token
  let percentage := v.config.percentage
  if 0 < percentage ∧ percentage < 100 then
    some ⟨bucket < percentage, .bucket bucket percentage⟩
  else none

/-- All or nobody. -/
def wholly : Rule := fun v _ => some ⟨100 ≤ v.config.percentage, .percentage v.config.percentage⟩

/-- The rules in the order of their rank. -/
def rules : List Rule := [overridden, switchedOff, denied, listed, partly, wholly]

/-- The decision of the first rule that applies. -/
def decision? (v : Policy) (path : Option String) : Option Decision :=
  rules.findSome? fun rule => rule v path

/-- The policy of a new controller. -/
def new (config : RolloutConfig) (hasher : Hasher) (token : String) : Policy :=
  ⟨config.normalized, fun _ => none, hasher, token⟩

/-- The policy after a command. -/
def obey (v : Policy) : Controller.Command → Policy
  | .setOverride path useNew =>
    { v with overrides := Function.update v.overrides path (some useNew) }
  | .clearOverride path => { v with overrides := Function.update v.overrides path none }
  | .clearOverrides => { v with overrides := fun _ => none }
  | .updateConfig config => { v with config := config.normalized }
  | .setPercentage value => { v with config := { v.config with percentage := clampPercentage value } }
  | .setEnabled value => { v with config := { v.config with enabled := value } }
  | .decide _ | .shouldUseNew _ | .assignment | .status => v

/-- The policy after a run. -/
def after (v : Policy) : List Controller.Command → Policy
  | [] => v
  | k :: ks => (v.obey k).after ks

end Policy

namespace Controller

/-! ## A controller follows its policy -/

/-- A controller decides by a policy. -/
structure Follows (v : Policy) (c : Controller σ) : Prop where
  config : c.config = v.config
  overrides : ∀ path, c.overrides.find? path = v.overrides path
  bucket : c.assigner.assignment.1.bucket = v.hasher.bucket v.token

variable {v : Policy} {c : Controller σ}

theorem new_follows (store : Store σ) (state : σ) (hasher : Hasher) (newToken : String)
    (config : RolloutConfig) :
    Follows (.new config hasher (installedToken store state newToken))
      (new config { store, state, hasher, newToken }) where
  config := rfl
  overrides := fun _ => rfl
  bucket := by
    obtain ⟨persisted, made⟩ := Assigner.load_token { store, state, hasher, newToken }
    exact congrArg Assignment.bucket made

/-- What the controller and its assigner do to each other leaves the policy alone. -/
theorem Follows.ask (follows : Follows v c) {c' : Controller σ} (config : c'.config = c.config)
    (overrides : c'.overrides = c.overrides)
    (asked : Assigner.IsOrAsked c.assigner c'.assigner) : Follows v c' where
  config := config.trans follows.config
  overrides := fun path => by rw [overrides, follows.overrides path]
  bucket := by rw [asked.assignment, follows.bucket]

theorem Follows.setOverride (follows : Follows v c) (path : String) (useNew : Bool) :
    Follows (v.obey (.setOverride path useNew)) (c.setOverride path useNew) where
  config := follows.config
  overrides := by
    intro other
    show (c.overrides.insert path useNew).find? other =
      Function.update v.overrides path (some useNew) other
    by_cases same : other = path
    · subst same
      rw [Table.find?_insert_self, Function.update_self]
    · rw [Table.find?_insert_of_ne _ _ same, Function.update_of_ne same, follows.overrides]
  bucket := follows.bucket

theorem Follows.clearOverride (follows : Follows v c) (path : String) :
    Follows (v.obey (.clearOverride path)) (c.clearOverride path).2 where
  config := follows.config
  overrides := by
    intro other
    show (c.overrides.erase path).find? other = Function.update v.overrides path none other
    by_cases same : other = path
    · subst same
      rw [Table.find?_erase_self, Function.update_self]
    · rw [Table.find?_erase_of_ne _ same, Function.update_of_ne same, follows.overrides]
  bucket := follows.bucket

/-- A command leaves a controller following the policy that it makes. -/
theorem Follows.obey (follows : Follows v c) (k : Command) : Follows (v.obey k) (c.obey k).2 := by
  cases k with
  | setOverride path useNew => exact follows.setOverride path useNew
  | clearOverride path => exact follows.clearOverride path
  | clearOverrides => exact ⟨follows.config, fun _ => rfl, follows.bucket⟩
  | updateConfig config => exact ⟨rfl, follows.overrides, follows.bucket⟩
  | setPercentage value =>
      refine ⟨?_, follows.overrides, follows.bucket⟩
      show { c.config with percentage := clampPercentage value } = _
      rw [follows.config]
      rfl
  | setEnabled value =>
      refine ⟨?_, follows.overrides, follows.bucket⟩
      show { c.config with enabled := value } = _
      rw [follows.config]
      rfl
  | decide path =>
      exact follows.ask (c.decide_config path) (c.decide_overrides path) (c.decide_assigner path)
  | shouldUseNew path =>
      exact follows.ask (c.decide_config path) (c.decide_overrides path) (c.decide_assigner path)
  | assignment => exact follows.ask rfl rfl (c.obey_assigner .assignment)
  | status =>
      have config : (c.assignment.2.decide none).2.config = c.config := decide_config _ none
      have overrides : (c.assignment.2.decide none).2.overrides = c.overrides :=
        decide_overrides _ none
      exact follows.ask config overrides (c.obey_assigner .status)

theorem Follows.after (follows : Follows v c) (ks : List Command) :
    Follows (v.after ks) (c.after ks) := by
  induction ks generalizing v c with
  | nil => exact follows
  | cons k ks rest => exact rest (follows.obey k)

/-! ## The first rule that applies -/

theorem matchesPrefix_iff (listed : List String) (path : String) :
    matchesPrefix listed path ↔ Policy.Covers listed path := by
  simp [matchesPrefix, Policy.Covers]

theorem any_matchesPrefix_iff (listed : List String) (path : Option String) :
    path.any (matchesPrefix listed) ↔ ∃ p ∈ path, Policy.Covers listed p := by
  cases path with
  | none => simp
  | some p => simp [matchesPrefix_iff]

theorem any_nonempty_iff (listed : List String) :
    listed.any (!String.isEmpty ·) ↔ ∃ p ∈ listed, p ≠ "" := by
  simp

/-- What the rules find before they ask for the bucket. -/
theorem Follows.decideEarly (follows : Follows v c) (path : Option String) :
    v.decision? path =
      match Controller.decideEarly c.config c.overrides path with
      | some d => some d
      | none =>
        some ⟨v.hasher.bucket v.token < v.config.percentage,
          .bucket (v.hasher.bucket v.token) v.config.percentage⟩ := by
  have overrides : path.bind c.overrides.find? = path.bind v.overrides := by
    cases path with
    | none => rfl
    | some p => exact follows.overrides p
  unfold Controller.decideEarly Policy.decision? Policy.rules
  rw [overrides, follows.config]
  simp only [List.findSome?_cons, Policy.overridden, Policy.switchedOff, Policy.denied,
    Policy.listed, Policy.partly, Policy.wholly]
  cases path.bind v.overrides with
  | some value => rfl
  | none =>
      simp only [any_matchesPrefix_iff, any_nonempty_iff, Bool.and_eq_true, decide_eq_true_eq,
        Bool.not_eq_true', Option.map_none]
      by_cases enabled : v.config.enabled
      · simp only [enabled, if_true, Bool.true_eq_false, if_false]
        by_cases denied : ∃ p ∈ path, Policy.Covers v.config.disabledPaths p
        · simp only [if_pos denied]
        · simp only [if_neg denied]
          by_cases configured : ∃ p ∈ v.config.enabledPaths, p ≠ ""
          · simp only [if_pos configured]
            by_cases allowed : ∃ p ∈ path, Policy.Covers v.config.enabledPaths p
            · simp only [if_pos allowed]
            · simp only [if_neg allowed]
          · simp only [if_neg configured]
            by_cases partly : 0 < v.config.percentage ∧ v.config.percentage < 100
            · simp only [if_pos partly]
            · simp only [if_neg partly]
      · simp only [enabled, if_true, Bool.false_eq_true, if_false]

/-- A controller decides as the first rule does that applies to its policy. -/
theorem Follows.decide (follows : Follows v c) (path : Option String) :
    v.decision? path = some (c.decide path).1 := by
  rw [follows.decideEarly]
  rcases c.decide_eq path with ⟨d, found, made⟩ | ⟨late, made⟩
  · rw [found, made]
  · rw [late, made, follows.bucket, follows.config]

/-- Only an override says that it decided, and it says so with its value. -/
theorem override_decision_iff (v : Policy) (path : Option String) (value : Bool) :
    v.decision? path = some ⟨value, .override⟩ ↔ path.bind v.overrides = some value := by
  unfold Policy.decision? Policy.rules
  simp only [List.findSome?_cons, Policy.overridden, Policy.switchedOff, Policy.denied,
    Policy.listed, Policy.partly, Policy.wholly]
  cases path.bind v.overrides with
  | some other => simp
  | none =>
      simp only [Option.map_none]
      split_ifs <;> simp

/-- With the switch off only an override decides for the unified client. -/
theorem decision_switchedOff {v : Policy} {path : Option String} {d : Decision}
    (off : v.config.enabled = false) (decided : v.decision? path = some d) (useNew : d.useNew) :
    path.bind v.overrides = some true := by
  unfold Policy.decision? Policy.rules at decided
  simp only [List.findSome?_cons, Policy.overridden, Policy.switchedOff, off] at decided
  cases found : path.bind v.overrides with
  | some value =>
      rw [found] at decided
      cases decided
      exact congrArg some useNew
  | none =>
      rw [found] at decided
      cases decided
      cases useNew

/-- At every point of every run, a controller decides by the first rule that applies to the
configuration in force, the overrides that are still set and the token of the installation. With the
switch off only an override decides for the unified client, and what clearing an override returns is
what decided for its path before. -/
theorem decided_by_first_rule (store : Store σ) (state : σ) (hasher : Hasher) (newToken : String)
    (config : RolloutConfig) (run : List Command) :
    let c := (new config { store, state, hasher, newToken }).after run
    let v := (Policy.new config hasher (installedToken store state newToken)).after run
    (∀ path, v.decision? path = some (c.decide path).1 ∧
      (c.shouldUseNew path).1 = (c.decide path).1.useNew) ∧
    c.config = v.config ∧
    (v.config.enabled = false → ∀ path, (c.decide path).1.useNew →
      ∃ p, path = some p ∧ v.overrides p = some true) ∧
    (∀ path, (c.clearOverride path).1 = v.overrides path) ∧
    (∀ path value, (c.clearOverride path).1 = some value ↔
      (c.decide (some path)).1 = ⟨value, .override⟩) := by
  intro c v
  have follows : Follows v c := (new_follows store state hasher newToken config).after run
  refine ⟨fun path => ⟨follows.decide path, rfl⟩, follows.config, ?_, follows.overrides, ?_⟩
  · intro off path useNew
    have found := decision_switchedOff off (follows.decide path) useNew
    obtain ⟨p, isPath, set⟩ := Option.bind_eq_some_iff.mp found
    exact ⟨p, isPath, set⟩
  · intro path value
    have cleared : (c.clearOverride path).1 = (some path).bind v.overrides := follows.overrides path
    rw [cleared, ← override_decision_iff, follows.decide, Option.some.injEq]

end Controller

end ClientMigration
