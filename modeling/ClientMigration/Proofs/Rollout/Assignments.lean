/-
# Proofs.Rollout.Assignments -- one assignment for each installation

An assigner asks its store once in a run, and writes only where it read that
there is no token (`Asked`). To see this the store is made to log what it is
asked (`Store.logged`); a log changes no answer (`mirrors_logged`).

Once the store holds the token it stays: a later controller reads it, and writes
nothing (`Later.held`). So the assignment of the first controller is the one of
all controllers after it, and so are its answers (`assigned_once`).
-/
import ClientMigration.Proofs.Store.Laws
import ClientMigration.Proofs.Rollout.Commands

namespace ClientMigration

set_option autoImplicit false

variable {σ : Type}

/-! ## What a store sees -/

/-- What a store is asked to do, and whether it did it. -/
inductive Access where
  | get (key : String) (ok : Bool)
  | set (key value : String) (ok : Bool)
  | remove (key : String) (ok : Bool)
  deriving DecidableEq, Repr

/-- An operation that puts its outcome at the end of a log. -/
def Store.log {α : Type} (access : Bool → Access) (op : σ → Except StoreFault α × σ)
    (s : σ × List Access) : Except StoreFault α × (σ × List Access) :=
  ((op s.1).1, (op s.1).2, s.2 ++ [access (op s.1).1.isOk])

/-- The store with a log of what it is asked. -/
def Store.logged (store : Store σ) : Store (σ × List Access) where
  get key := log (.get key) (store.get key)
  set key value := log (.set key value) (store.set key value)
  remove key := log (.remove key) (store.remove key)

namespace Assigner

/-- The assigner on a store that logs. -/
def logged (a : Assigner σ) (log : List Access) : Assigner (σ × List Access) :=
  { store := a.store.logged, state := (a.state, log), hasher := a.hasher, newToken := a.newToken,
    current? := a.current? }

/-- What a store may see when it is asked for an assignment: a read that fails, a read that finds a
token, or a read that finds none and a try to write the new token. -/
inductive Asked (newToken : String) : List Access → Prop where
  | failed : Asked newToken [.get userHashKey false]
  | found : Asked newToken [.get userHashKey true]
  | missing (ok : Bool) : Asked newToken [.get userHashKey true, .set userHashKey newToken ok]

theorem load_logged (a : Assigner σ) (log : List Access) :
    ∃ seen, Asked a.newToken seen ∧ (a.logged log).load = (a.load.1, a.load.2, log ++ seen) := by
  simp only [load, logged, Store.logged, Store.log]
  rcases a.store.get userHashKey a.state with ⟨e | found, s⟩
  · exact ⟨_, .failed, rfl⟩
  · cases usable : found.filter (!isBlankToken ·) with
    | some token => exact ⟨_, .found, by simp only [usable]; rfl⟩
    | none =>
        simp only [usable]
        rcases a.store.set userHashKey a.newToken s with ⟨e | _, s'⟩
        · exact ⟨_, .missing false, by simp only [List.append_assoc]; rfl⟩
        · exact ⟨_, .missing true, by simp only [List.append_assoc]; rfl⟩

/-- With a log or without, an assigner that is asked says the same, and the log grows the first time
only. -/
theorem assignment_logged (a : Assigner σ) (log : List Access) :
    ∃ seen, (seen = [] ∨ a.current? = none ∧ Asked a.newToken seen) ∧
      (a.logged log).assignment = (a.assignment.1, a.assignment.2.logged (log ++ seen)) := by
  cases known : a.current? with
  | some x =>
      have known' : (a.logged log).current? = some x := known
      refine ⟨[], Or.inl rfl, ?_⟩
      rw [assignment_of_current known, assignment_of_current known', List.append_nil]
  | none =>
      have known' : (a.logged log).current? = none := known
      obtain ⟨seen, asked, same⟩ := a.load_logged log
      refine ⟨seen, Or.inr ⟨rfl, asked⟩, ?_⟩
      rw [assignment_of_none known, assignment_of_none known', same]
      rfl

end Assigner

namespace Controller

theorem mirrors_logged :
    Mirrors fun (a : Assigner σ) (b : Assigner (σ × List Access)) => ∃ log, b = a.logged log where
  hasher := by
    rintro a b ⟨log, rfl⟩
    rfl
  assignment := by
    rintro a b ⟨log, rfl⟩
    obtain ⟨seen, _, same⟩ := a.assignment_logged log
    rw [same]
  asked := by
    rintro a b ⟨log, rfl⟩
    obtain ⟨seen, _, same⟩ := a.assignment_logged log
    exact ⟨log ++ seen, by rw [same]⟩

/-- A run on a store that logs gives the same answers and leaves the store in the same state. The log
is empty, or that of one assignment. -/
theorem run_logged (store : Store σ) (state : σ) (hasher : Hasher) (newToken : String)
    (config : RolloutConfig) (run : List Command) :
    let plain := new config { store, state, hasher, newToken }
    let logged := new config { store := store.logged, state := (state, []), hasher, newToken }
    logged.answers run = plain.answers run ∧
    (logged.after run).assigner.state.1 = (plain.after run).assigner.state ∧
    ((logged.after run).assigner.state.2 = [] ∨
      Assigner.Asked newToken (logged.after run).assigner.state.2) := by
  intro plain logged
  have alike : Alike (fun (a : Assigner σ) (b : Assigner (σ × List Access)) => ∃ log, b = a.logged log)
      plain logged := ⟨rfl, rfl, [], rfl⟩
  obtain ⟨answers, alike⟩ := alike.run mirrors_logged run
  obtain ⟨log, same⟩ := alike.assigner
  refine ⟨answers, by rw [same]; rfl, ?_⟩
  rcases logged.after_assigner run with untouched | asked
  · rw [untouched]
    exact Or.inl rfl
  · obtain ⟨seen, once, made⟩ := plain.assigner.assignment_logged []
    have start : logged.assigner = plain.assigner.logged [] := rfl
    rw [asked, start, made]
    rcases once with rfl | ⟨_, once⟩
    · exact Or.inl rfl
    · exact Or.inr once

end Controller

/-! ## The three ways of a first time -/

namespace Assigner

theorem load_of_found (a : Assigner σ) {token : String}
    (read : (a.store.get userHashKey a.state).1 = .ok (some token))
    (usable : isBlankToken token = false) : a.load.1 = .of a.hasher token true := by
  rcases a.load_cases with ⟨token', read', _, made⟩ | ⟨⟨found, read', blank⟩, _⟩ |
    ⟨⟨found, read', blank⟩, _⟩ | ⟨⟨e, read'⟩, _⟩
  · rw [read] at read'
    cases read'
    rw [made]
  all_goals
    rw [read] at read'
    cases read'
  all_goals
    rw [blank token rfl] at usable
    cases usable

theorem load_of_missing (a : Assigner σ) (none : a.FoundNone) :
    a.load.1 = .of a.hasher a.newToken (a.store.set userHashKey a.newToken a.readState).1.isOk := by
  obtain ⟨found, read, blank⟩ := none
  rcases a.load_cases with ⟨token, read', usable, made⟩ | ⟨_, written, made⟩ |
    ⟨_, ⟨e, refused⟩, made⟩ | ⟨⟨e, read'⟩, _⟩
  · rw [read] at read'
    cases read'
    rw [blank token rfl] at usable
    cases usable
  · rw [made, written]
    rfl
  · rw [made, refused]
    rfl
  · rw [read] at read'
    cases read'

theorem load_of_failed (a : Assigner σ) {e : StoreFault}
    (failed : (a.store.get userHashKey a.state).1 = .error e) :
    a.load.1 = .of a.hasher a.newToken false := by
  unfold load
  rcases read : a.store.get userHashKey a.state with ⟨e' | found, s⟩
  · rfl
  · rw [read] at failed
    cases failed

end Assigner

/-! ## What a store holds afterwards -/

section

variable {store : Store σ} {holds : String → σ → Option String}

namespace Assigner

/-- A persisted assignment has the token that the store holds. -/
theorem load_persisted (a : Assigner σ) (keeps : a.store.Keeps holds) (persisted : a.load.1.persisted) :
    holds userHashKey a.load.2 = some a.load.1.token := by
  rcases a.load_cases with ⟨token, read, _, made⟩ | ⟨_, written, made⟩ | ⟨_, _, made⟩ | ⟨_, made⟩
  · rw [made]
    exact (keeps.get_holds userHashKey a.state userHashKey).trans (keeps.get_ok read).symm
  · rw [made]
    exact keeps.set_ok written
  · rw [made] at persisted
    cases persisted
  · rw [made] at persisted
    cases persisted

/-- Where the new token is none of the blank ones, no assignment has a blank one. -/
theorem load_notBlank (a : Assigner σ) (notBlank : isBlankToken a.newToken = false) :
    isBlankToken a.load.1.token = false := by
  rcases a.load_cases with ⟨token, _, usable, made⟩ | ⟨_, _, made⟩ | ⟨_, _, made⟩ | ⟨_, made⟩
  · rw [made]
    exact usable
  all_goals
    rw [made]
    exact notBlank

/-- An assigner whose store holds a token writes nothing, and its assignment is that of the token
where the token can be read. -/
theorem load_held (a : Assigner σ) (keeps : a.store.Keeps holds) {token : String}
    (held : holds userHashKey a.state = some token) (usable : isBlankToken token = false) :
    a.load.2 = a.readState ∧
      ∀ found, (a.store.get userHashKey a.state).1 = .ok found →
        a.load.1 = .of a.hasher token true := by
  have notMissing : ¬ a.FoundNone := by
    rintro ⟨found, read, blank⟩
    rw [keeps.get_ok read, held] at blank
    rw [blank token rfl] at usable
    cases usable
  rcases a.load_cases with ⟨token', read, _, made⟩ | ⟨none, _⟩ | ⟨none, _⟩ | ⟨⟨e, read⟩, made⟩
  · have same : some token' = some token := (keeps.get_ok read).trans held
    refine ⟨by rw [made], fun _ _ => ?_⟩
    rw [made, Option.some.inj same]
  · exact absurd none notMissing
  · exact absurd none notMissing
  · refine ⟨by rw [made], fun found read' => ?_⟩
    rw [read] at read'
    cases read'

end Assigner

/-- What a store may go through while its token is left alone: it is read, other keys are set and
removed, and controllers run on it. -/
inductive Later (store : Store σ) (s : σ) : σ → Prop where
  | now : Later store s s
  | get {s'} (key : String) : Later store s s' → Later store s (store.get key s').2
  | set {s'} {key : String} (value : String) : key ≠ userHashKey → Later store s s' →
      Later store s (store.set key value s').2
  | remove {s'} {key : String} : key ≠ userHashKey → Later store s s' →
      Later store s (store.remove key s').2
  | run {s'} (config : RolloutConfig) (hasher : Hasher) (newToken : String)
      (commands : List Controller.Command) : Later store s s' →
      Later store s
        ((Controller.new config { store, state := s', hasher, newToken }).after commands).assigner.state

theorem Later.held (keeps : store.Keeps holds) {s s' : σ} {token : String}
    (later : Later store s s') (held : holds userHashKey s = some token)
    (usable : Assigner.isBlankToken token = false) : holds userHashKey s' = some token := by
  induction later with
  | now => exact held
  | get key _ before => exact (keeps.get_holds key _ userHashKey).trans before
  | set value other _ before => exact (keeps.set_other value _ other).trans before
  | remove other _ before => exact (keeps.remove_other _ other).trans before
  | @run s' config hasher newToken commands _ before =>
      let a : Assigner σ := { store, state := s', hasher, newToken }
      rcases (Controller.new config a).after_assigner commands with untouched | asked
      · rw [untouched]
        exact before
      · have new : a.current? = none := rfl
        have start : (Controller.new config a).assigner = a := rfl
        rw [asked, start, Assigner.assignment_of_none new]
        show holds userHashKey a.load.2 = some token
        rw [(a.load_held keeps before usable).1]
        exact (keeps.get_holds userHashKey s' userHashKey).trans before

/-- What an assigner has persisted, a later one that can read it has too. -/
theorem Later.assigned (keeps : store.Keeps holds) {state s : σ} {hasher : Hasher} {newToken : String}
    (persisted : (Assigner.load { store, state, hasher, newToken }).1.persisted)
    (notBlank : Assigner.isBlankToken newToken = false)
    (later : Later store (Assigner.load { store, state, hasher, newToken }).2 s) {found : Option String}
    (readable : (store.get userHashKey s).1 = .ok found) (newToken' : String) :
    (Assigner.load { store, state := s, hasher, newToken := newToken' }).1 =
      (Assigner.load { store, state, hasher, newToken }).1 := by
  let first : Assigner σ := { store, state, hasher, newToken }
  let second : Assigner σ := { store, state := s, hasher, newToken := newToken' }
  show second.load.1 = first.load.1
  have usable : Assigner.isBlankToken first.load.1.token = false := first.load_notBlank notBlank
  have held : holds userHashKey s = some first.load.1.token :=
    later.held keeps (first.load_persisted keeps persisted) usable
  rw [(second.load_held keeps held usable).2 found readable]
  obtain ⟨written, made⟩ := first.load_token
  have persisted : first.load.1.persisted := persisted
  rw [made] at persisted ⊢
  cases persisted
  rfl

end

/-! ## Once and for all -/

namespace Controller

theorem after_asked (c : Controller σ) (ks : List Command) :
    (c.after ks).assignment.2.assigner = c.assigner.assignment.2 := by
  show (c.after ks).assigner.assignment.2 = _
  rcases c.after_assigner ks with untouched | asked
  · rw [untouched]
  · rw [asked, Assigner.assignment_again]

/-- An installation is assigned once. In every run, whatever fails, the store sees nothing or what
one assignment takes; all assignments are the same one, which has the token that the store has and
otherwise the new one, and is persisted only if the store holds that token. Then, as long as the
token is left alone, every later controller that can read it has the same assignment, and answers as
the first one would. -/
theorem assigned_once (store : Store σ) (holds : String → σ → Option String)
    (keeps : store.Keeps holds) (state : σ) (hasher : Hasher) (newToken : String)
    (config : RolloutConfig) (run : List Command) :
    let start := new config { store, state, hasher, newToken }
    let logged := new config { store := store.logged, state := (state, []), hasher, newToken }
    let c := start.after run
    let a := start.assignment.1
    let read := store.get userHashKey state
    -- one read and one write at most, and none after a read that failed
    (logged.answers run = start.answers run ∧ (logged.after run).assigner.state.1 = c.assigner.state ∧
      ((logged.after run).assigner.state.2 = [] ∨
        Assigner.Asked newToken (logged.after run).assigner.state.2)) ∧
    -- one assignment
    (c.assignment.1 = a ∧ (∀ b, .assignment b ∈ start.answers run → b = a) ∧
      a.bucket = hasher.bucket a.token) ∧
    -- with the token of the store, or the new one
    (∀ token, read.1 = .ok (some token) → Assigner.isBlankToken token = false →
      a = .of hasher token true) ∧
    (∀ found, read.1 = .ok found → (∀ token ∈ found, Assigner.isBlankToken token) →
      a = .of hasher newToken (store.set userHashKey newToken read.2).1.isOk) ∧
    (∀ e, read.1 = .error e → a = .of hasher newToken false) ∧
    -- that the store holds
    (a.persisted → holds userHashKey c.assignment.2.assigner.state = some a.token) ∧
    -- for all controllers to come
    (a.persisted → Assigner.isBlankToken newToken = false →
      ∀ s, Later store c.assignment.2.assigner.state s →
      ∀ found, (store.get userHashKey s).1 = .ok found → ∀ config' newToken',
        let later := new config' { store, state := s, hasher, newToken := newToken' }
        later.assignment.1 = a ∧
          ∀ run', later.answers run' =
            (new config' { store, state, hasher, newToken }).answers run') := by
  intro start logged c a read
  let first : Assigner σ := { store, state, hasher, newToken }
  have loaded : a = first.load.1 := rfl
  have asked : c.assignment.2.assigner.state = first.load.2 := by
    rw [after_asked]
    rfl
  have held (persisted : a.persisted) :
      holds userHashKey c.assignment.2.assigner.state = some a.token := by
    rw [asked]
    exact first.load_persisted keeps persisted
  refine ⟨run_logged store state hasher newToken config run,
    ⟨start.after_assignment run, fun b told => answers_assignment told, ?_⟩, ?_, ?_, ?_, held, ?_⟩
  · obtain ⟨persisted, made⟩ := first.load_token
    rw [loaded, made]
    rfl
  · intro token found usable
    rw [loaded]
    exact first.load_of_found found usable
  · intro found read blank
    rw [loaded]
    exact first.load_of_missing ⟨found, read, blank⟩
  · intro e failed
    rw [loaded]
    exact first.load_of_failed failed
  · intro persisted notBlank s later found readable config' newToken'
    rw [asked] at later
    have same := later.assigned keeps persisted notBlank readable newToken'
    have alike : Alike Agree (new config' { store, state, hasher, newToken })
        (new config' { store, state := s, hasher, newToken := newToken' }) := ⟨rfl, rfl, rfl, same⟩
    exact ⟨same, fun run' => (alike.run mirrors_agree run').1⟩

/-- After a controller that could not read the token, and made do with its own, the next one has the
assignment of the first. -/
theorem assigned_once_restart :
    let store := Memory.store.faltering
    let first := new {} { store, state := ({}, [false, false, true]), newToken := tokenOf [] }
    let second := new {} { store, state := first.assignment.2.assigner.state, newToken := "b" }
    let third := new {} { store, state := (second.after [.assignment]).assigner.state, newToken := "c" }
    second.assignment.1.persisted = false ∧ third.assignment.1 = first.assignment.1 := by
  intro store first second third
  obtain ⟨_, _, _, _, _, _, later⟩ := assigned_once store (fun key s => Memory.holds key s.1)
    Memory.store_keeps.faltering ({}, [false, false, true]) .fnv1a (tokenOf []) {} []
  refine ⟨by decide +kernel, (later (by decide +kernel) (Assigner.tokenOf_notBlank []) _ ?_
    (some (tokenOf [])) (by decide +kernel) {} "c").1⟩
  exact .run {} .fnv1a "b" [.assignment] .now

end Controller

end ClientMigration
