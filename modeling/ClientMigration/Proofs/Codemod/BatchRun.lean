/-
# Proofs.Codemod.BatchRun -- many files, in any order

A file is migrated in two steps: it is read, and if its text changes and a text may
be written, it is written. A schedule takes the files' steps in any order, one file's
between another's (`Work.run`); the batch is the schedule that takes the files one
after the other (`migrateFiles_eq`).

While no two paths lead to one file, a step for one file is blind to the steps of
the others: what is read is the text of the beginning, and what is written goes to
that file alone. `Sound` says so of the work at any time, one step keeps it
(`Sound.step`), and so every schedule in which each file has its two steps ends
with the same summary and the same files (`batch_frame`).
-/
import Mathlib.Logic.Function.Basic
import ClientMigration.Proofs.Files.Tree
import ClientMigration.Proofs.Codemod.Discovery
import ClientMigration.Proofs.Codemod.Run

namespace ClientMigration

set_option autoImplicit false

namespace Codemod

variable {config : Config} {mode : BatchMode} {files : Tree} {ps : List Path} {p q : Path}

/-! ## What becomes of a file -/

/-- A file whose text a migration changes, from `t` to that of `o`. -/
structure Migrates (config : Config) (files : Tree) (p : Path) (t : Text) (o : Outcome) : Prop where
  notTest : isTestPath p = false
  reads : files.read p = .ok t
  ran : migrate config p t = .ok o
  differs : o.source ≠ t

/-- What is noted of a file that changes. -/
def changedFile (p : Path) (o : Outcome) : FileOutcome := .changed ⟨p, o.applied, o.preset, o.role⟩

/-- What becomes of a file as it stands. -/
inductive Becomes (config : Config) (files : Tree) (p : Path) : FileOutcome → Prop
  | test (isTest : isTestPath p = true) : Becomes config files p .skippedTest
  | unreadable {e : FileFault} (notTest : isTestPath p = false) (unread : files.read p = .error e) :
      Becomes config files p (.failed (.ofFault p e))
  | refused {t : Text} {e : Failure} (notTest : isTestPath p = false) (reads : files.read p = .ok t)
      (refused : migrate config p t = .error e) : Becomes config files p (.failed (.ofFailure p e))
  | unchanged {t : Text} {o : Outcome} (notTest : isTestPath p = false) (reads : files.read p = .ok t)
      (ran : migrate config p t = .ok o) (same : o.source = t) : Becomes config files p .unchanged
  | changed {t : Text} {o : Outcome} (migrates : Migrates config files p t o) :
      Becomes config files p (changedFile p o)

theorem Migrates.unique {t t' : Text} {o o' : Outcome} (migrates : Migrates config files p t o)
    (migrates' : Migrates config files p t' o') : t' = t ∧ o' = o := by
  cases migrates.reads.symm.trans migrates'.reads
  cases migrates.ran.symm.trans migrates'.ran
  exact ⟨rfl, rfl⟩

/-! ## Schedules -/

/-- How far a file has come. -/
inductive Stage where
  | waiting
  /-- The file was read, and its new text is to be written. -/
  | writing (o : Outcome)
  | done (outcome : FileOutcome)

/-- The stage of a file that was read. -/
def looked (config : Config) (mode : BatchMode) (files : Tree) (p : Path) : Stage :=
  if isTestPath p then .done .skippedTest
  else
    match inspect (migrate config) files p with
    | .error e => .done (.failed e)
    | .ok o =>
      if !o.changed then .done .unchanged
      else
        match mode with
        | .dryRun => .done (changedFile p o)
        | .write => .writing o

/-- The files at some time of a batch, and how far each of them has come. -/
structure Work where
  files : Tree
  stage : Path → Stage

namespace Work

def begun (files : Tree) : Work := ⟨files, fun _ => .waiting⟩

def note (w : Work) (p : Path) (stage : Stage) : Work :=
  { w with stage := Function.update w.stage p stage }

/-- One step for a file: it is read or written, if it is not done. -/
def step (config : Config) (mode : BatchMode) (w : Work) (p : Path) : Work :=
  match w.stage p with
  | .waiting => w.note p (looked config mode w.files p)
  | .writing o =>
    match w.files.write p o.source with
    | .ok files => note { w with files } p (.done (changedFile p o))
    | .error e => w.note p (.done (.failed (.ofFault p e)))
  | .done _ => w

/-- A step for each file of a schedule, in its order. -/
def run (config : Config) (mode : BatchMode) (w : Work) (schedule : List Path) : Work :=
  schedule.foldl (step config mode) w

/-- What became of a file is added to a summary once it is done. -/
def tell (w : Work) (s : BatchSummary) (p : Path) : BatchSummary :=
  match w.stage p with
  | .done outcome => s.add outcome
  | _ => s

/-- What became of the files that are done. -/
def summary (mode : BatchMode) (ps : List Path) (w : Work) : BatchSummary :=
  ps.foldl w.tell { mode, scanned := ps.length }

end Work

/-! ## One step -/

/-- What the stage of a file says of the file as it was at the beginning. -/
inductive Tells (config : Config) (mode : BatchMode) (files : Tree) (p : Path) : Stage → Prop
  | waiting : Tells config mode files p .waiting
  | writing {t : Text} {o : Outcome} (writes : mode = .write) (migrates : Migrates config files p t o) :
      Tells config mode files p (.writing o)
  | done {outcome : FileOutcome} (becomes : Becomes config files p outcome) :
      Tells config mode files p (.done outcome)

/-- A file that changes is written before it is done. -/
theorem looked_migrates {t : Text} {o : Outcome} (migrates : Migrates config files p t o) :
    looked config .write files p = .writing o := by
  have changed : o.changed = true := by
    rw [migrateWith_changed migrates.ran]
    simpa using migrates.differs
  simp [looked, migrates.notTest, inspect, migrates.reads, migrates.ran, changed]

theorem looked_tells (config : Config) (mode : BatchMode) (files : Tree) (p : Path) :
    Tells config mode files p (looked config mode files p) := by
  unfold looked
  cases test : isTestPath p with
  | true => exact .done (.test test)
  | false =>
    rw [if_neg (by simp)]
    unfold inspect
    cases reads : files.read p with
    | error e => exact .done (.unreadable test reads)
    | ok t =>
      cases ran : migrate config p t with
      | error e =>
        simp only [ran]
        exact .done (.refused test reads ran)
      | ok o =>
        simp only [ran]
        have changed := migrateWith_changed ran
        by_cases same : o.source = t
        · rw [if_pos (by simp [changed, same])]
          exact .done (.unchanged test reads ran same)
        · have migrates : Migrates config files p t o := ⟨test, reads, ran, same⟩
          rw [if_neg (by simp [changed, same])]
          cases mode with
          | dryRun => exact .done (.changed migrates)
          | write => exact .writing rfl migrates

/-- Whether no two of the paths lead to one file. -/
def Apart (files : Tree) (ps : List Path) : Prop :=
  ∀ p ∈ ps, ∀ q ∈ ps, ∀ loc, files.locate p = .ok loc → files.locate q = .ok loc → p = q

/-- Whether a file that changes was written. -/
def Wrote (config : Config) (mode : BatchMode) (files : Tree) (w : Work) (p : Path) (o : Outcome) : Prop :=
  mode = .write ∧ (∃ t, Migrates config files p t o) ∧ w.stage p = .done (changedFile p o)

/-- The work at some time of a batch that began with `files`. -/
structure Sound (config : Config) (mode : BatchMode) (files : Tree) (ps : List Path) (w : Work) :
    Prop where
  shape : files.SameShape w.files
  stages : ∀ p ∈ ps, Tells config mode files p (w.stage p)
  written : ∀ p ∈ ps, ∀ o loc, Wrote config mode files w p o → files.locate p = .ok loc →
    w.files.sight loc = .file (.text o.source)
  /-- Where nothing was written, all is as at the beginning. -/
  others : ∀ l, (∀ p ∈ ps, ∀ o, Wrote config mode files w p o → files.locate p ≠ .ok l) →
    w.files.sight l = files.sight l
  dry : mode = .dryRun → w.files = files

theorem sound_begun (config : Config) (mode : BatchMode) (files : Tree) (ps : List Path) :
    Sound config mode files ps (.begun files) where
  shape := fun _ => rfl
  stages := fun _ _ => .waiting
  written := fun _ _ _ _ wrote => nomatch wrote.2.2
  others := fun _ _ => rfl
  dry := fun _ => rfl

variable {w : Work}

/-- A file that is not done reads as at the beginning. -/
theorem Sound.read_eq (sound : Sound config mode files ps w) (apart : Apart files ps) (listed : p ∈ ps)
    (undone : ∀ outcome, w.stage p ≠ .done outcome) : w.files.read p = files.read p := by
  rw [Tree.read_eq, Tree.read_eq, ← Tree.locate_congr sound.shape]
  cases located : files.locate p with
  | error e => rfl
  | ok loc =>
    have same : w.files.sight loc = files.sight loc := by
      refine sound.others loc fun q listed' o wrote located' => ?_
      cases apart p listed q listed' loc located located'
      exact undone _ wrote.2.2
    simp only [same]

theorem note_stage_self (w : Work) (p : Path) (stage : Stage) : (w.note p stage).stage p = stage := by
  simp [Work.note]

theorem note_stage_of_ne (w : Work) (stage : Stage) (distinct : q ≠ p) :
    (w.note p stage).stage q = w.stage q := by
  simp [Work.note, distinct]

theorem tells_note (sound : Sound config mode files ps w) {stage : Stage}
    (tells : Tells config mode files p stage) (q : Path) (listed : q ∈ ps) :
    Tells config mode files q ((w.note p stage).stage q) := by
  by_cases here : q = p
  · rw [here, note_stage_self]
    exact tells
  · rw [note_stage_of_ne w stage here]
    exact sound.stages q listed

/-- Reading a file writes none. -/
theorem Sound.look (sound : Sound config mode files ps w) (waiting : w.stage p = .waiting) :
    Sound config mode files ps (w.note p (looked config mode files p)) := by
  have same (q : Path) (o : Outcome) :
      Wrote config mode files (w.note p (looked config mode files p)) q o ↔
        Wrote config mode files w q o := by
    by_cases here : q = p
    · subst here
      constructor
      · rintro ⟨rfl, ⟨t, migrates⟩, done⟩
        rw [note_stage_self, looked_migrates migrates] at done
        cases done
      · rintro ⟨_, _, done⟩
        cases waiting.symm.trans done
    · unfold Wrote
      rw [note_stage_of_ne w _ here]
  refine ⟨sound.shape, tells_note sound (looked_tells config mode files p), ?_, ?_, sound.dry⟩
  · intro q listed o loc wrote
    exact sound.written q listed o loc ((same q o).mp wrote)
  · intro l free
    exact sound.others l fun q listed o wrote => free q listed o ((same q o).mpr wrote)

/-- Writing a file changes no other. -/
theorem Sound.store (sound : Sound config mode files ps w) (apart : Apart files ps) (listed : p ∈ ps)
    {t : Text} {o : Outcome} (writes : mode = .write) (migrates : Migrates config files p t o)
    (writing : w.stage p = .writing o) {loc : Location} {u : Tree} (located : files.locate p = .ok loc)
    (stands : w.files.sight loc = .file (.text t)) (holds : w.files.Holds loc o.source u) :
    Sound config mode files ps (Work.note { w with files := u } p (.done (changedFile p o))) := by
  have elsewhere {q : Path} {o' : Outcome} (distinct : q ≠ p) :
      Wrote config mode files (Work.note { w with files := u } p (.done (changedFile p o))) q o' ↔
        Wrote config mode files w q o' := by
    unfold Wrote
    rw [note_stage_of_ne _ _ distinct]
  refine ⟨fun l => (sound.shape l).trans (holds.sameShape stands l), ?_, ?_, ?_, ?_⟩
  · exact tells_note sound (.done (.changed migrates))
  · intro q listed' o' loc' wrote located'
    show u.sight loc' = _
    by_cases here : q = p
    · subst here
      obtain ⟨t', migrates'⟩ := wrote.2.1
      obtain ⟨rfl, rfl⟩ := migrates.unique migrates'
      cases located.symm.trans located'
      rw [holds, if_pos rfl]
    · have away : loc' ≠ loc := by
        rintro rfl
        exact here (apart q listed' p listed loc' located' located)
      rw [holds, if_neg away]
      exact sound.written q listed' o' loc' ((elsewhere here).mp wrote) located'
  · intro l free
    show u.sight l = _
    have away : l ≠ loc := by
      rintro rfl
      exact free p listed o ⟨writes, ⟨t, migrates⟩, note_stage_self _ _ _⟩ located
    rw [holds, if_neg away]
    refine sound.others l fun q listed' o' wrote => ?_
    by_cases here : q = p
    · subst here
      cases writing.symm.trans wrote.2.2
    · exact free q listed' o' ((elsewhere here).mpr wrote)
  · rintro rfl
    cases writes

theorem looked_congr {t u : Tree} (same : t.read p = u.read p) :
    looked config mode t p = looked config mode u p := by
  unfold looked inspect
  rw [same]

/-- One step keeps the work sound. -/
theorem Sound.step (sound : Sound config mode files ps w) (apart : Apart files ps) (listed : p ∈ ps) :
    Sound config mode files ps (w.step config mode p) := by
  have tells := sound.stages p listed
  unfold Work.step
  cases stage : w.stage p with
  | done outcome => exact sound
  | waiting =>
    have reads := sound.read_eq apart listed fun outcome done => by cases stage.symm.trans done
    simp only [looked_congr reads]
    exact sound.look stage
  | writing o =>
    rw [stage] at tells
    cases tells with
    | @writing t _ writes migrates =>
      have reads := sound.read_eq apart listed fun outcome done => by cases stage.symm.trans done
      obtain ⟨loc, u, located, stands, written, holds⟩ :=
        Tree.write_of_read (reads.trans migrates.reads) o.source
      simp only [written]
      exact sound.store apart listed writes migrates stage
        ((Tree.locate_congr sound.shape p).trans located) stands holds

/-- A schedule keeps the work sound. -/
theorem Sound.run (sound : Sound config mode files ps w) (apart : Apart files ps) {schedule : List Path}
    (within : ∀ p ∈ schedule, p ∈ ps) : Sound config mode files ps (w.run config mode schedule) := by
  induction schedule generalizing w with
  | nil => exact sound
  | cons p schedule ih =>
    exact ih (sound.step apart (within p List.mem_cons_self)) fun q listed =>
      within q (List.mem_cons_of_mem _ listed)

/-! ## Schedules that finish -/

/-- The steps that a file still has at most. -/
def Stage.left : Stage → Nat
  | .waiting => 2
  | .writing _ => 1
  | .done _ => 0

theorem looked_left (config : Config) (mode : BatchMode) (files : Tree) (p : Path) :
    (looked config mode files p).left ≤ 1 := by
  unfold looked
  repeat' split
  all_goals simp [Stage.left]

theorem step_left (config : Config) (mode : BatchMode) (w : Work) (p : Path) :
    ((w.step config mode p).stage p).left ≤ (w.stage p).left - 1 := by
  unfold Work.step
  cases stage : w.stage p with
  | waiting =>
    simp only [note_stage_self]
    exact looked_left config mode w.files p
  | writing o =>
    simp only
    split
    · rw [note_stage_self]
      exact Nat.le_refl _
    · rw [note_stage_self]
      exact Nat.le_refl _
  | done outcome =>
    simp only [stage]
    exact Nat.le_refl _

theorem step_stage_of_ne (config : Config) (mode : BatchMode) (w : Work) (distinct : q ≠ p) :
    (w.step config mode p).stage q = w.stage q := by
  unfold Work.step
  repeat' split
  all_goals first
    | rfl
    | exact note_stage_of_ne _ _ distinct

theorem run_left (config : Config) (mode : BatchMode) (w : Work) (schedule : List Path) (p : Path) :
    ((w.run config mode schedule).stage p).left ≤ (w.stage p).left - schedule.count p := by
  induction schedule generalizing w with
  | nil => exact Nat.le_refl _
  | cons q schedule ih =>
    refine Nat.le_trans (ih (w.step config mode q)) ?_
    by_cases here : q = p
    · subst here
      have less := step_left config mode w q
      rw [List.count_cons_self]
      omega
    · refine Nat.le_of_eq ?_
      rw [step_stage_of_ne config mode w (Ne.symm here), List.count_cons_of_ne here]

/-- Two steps are enough for a file. -/
theorem done_of_two (config : Config) (mode : BatchMode) (files : Tree) {schedule : List Path}
    (twice : 2 ≤ schedule.count p) :
    ∃ outcome, ((Work.begun files).run config mode schedule).stage p = .done outcome := by
  have none := run_left config mode (.begun files) schedule p
  have left : ((Work.begun files).stage p).left = 2 := rfl
  cases stage : ((Work.begun files).run config mode schedule).stage p with
  | done outcome => exact ⟨outcome, rfl⟩
  | _ =>
    rw [stage, left] at none
    simp only [Stage.left] at none
    omega

/-! ## The batch as a schedule -/

theorem run_stage_of_not_mem (w : Work) {schedule : List Path} (absent : p ∉ schedule) :
    (w.run config mode schedule).stage p = w.stage p := by
  induction schedule generalizing w with
  | nil => rfl
  | cons q schedule ih =>
    obtain ⟨distinct, below⟩ := not_or.mp (mt List.mem_cons.mpr absent)
    exact (ih (w.step config mode q) below).trans (step_stage_of_ne config mode w distinct)

/-- A migration of one file in its two steps. -/
theorem migrateFile_cases (config : Config) (mode : BatchMode) (files : Tree) (p : Path) :
    (∃ x, looked config mode files p = .done x ∧ migrateFile config mode files p = (x, files)) ∨
      ∃ o, looked config mode files p = .writing o ∧
        migrateFile config mode files p =
          match files.write p o.source with
          | .ok u => (changedFile p o, u)
          | .error e => (.failed (.ofFault p e), files) := by
  unfold migrateFile looked
  cases isTestPath p with
  | true => exact Or.inl ⟨_, rfl, rfl⟩
  | false =>
    simp only [Bool.false_eq_true, if_false]
    cases inspect (migrate config) files p with
    | error e => exact Or.inl ⟨_, rfl, rfl⟩
    | ok o =>
      cases same : o.changed with
      | false => exact Or.inl ⟨.unchanged, by simp [same], by simp [same]⟩
      | true =>
        cases mode with
        | dryRun => exact Or.inl ⟨changedFile p o, by simp [same], by simp [same, changedFile]⟩
        | write =>
          refine Or.inr ⟨o, by simp [same], ?_⟩
          simp only [same]
          rfl

theorem note_note (w : Work) (p : Path) (a b : Stage) : (w.note p a).note p b = w.note p b := by
  simp [Work.note]

/-- Two steps in a row are the migration of the file. -/
theorem step_step (waiting : w.stage p = .waiting) :
    (w.step config mode p).step config mode p =
      Work.note { w with files := (migrateFile config mode w.files p).2 } p
        (.done (migrateFile config mode w.files p).1) := by
  have first : w.step config mode p = w.note p (looked config mode w.files p) := by
    rw [Work.step, waiting]
  rw [first, Work.step, note_stage_self]
  rcases migrateFile_cases config mode w.files p with ⟨x, saw, made⟩ | ⟨o, saw, made⟩
  · rw [saw, made]
  · rw [saw, made]
    show (match w.files.write p o.source with | .ok files => _ | .error e => _) = _
    cases w.files.write p o.source with
    | ok u => exact note_note { w with files := u } p _ _
    | error e => exact note_note w p _ _

/-- Each file twice, one after the other. -/
def oneByOne (ps : List Path) : List Path := ps.flatMap fun p => [p, p]

theorem mem_oneByOne : p ∈ oneByOne ps ↔ p ∈ ps := by
  simp [oneByOne]

theorem count_oneByOne (listed : p ∈ ps) : 2 ≤ (oneByOne ps).count p := by
  induction ps with
  | nil => cases listed
  | cons q ps ih =>
    show 2 ≤ (q :: q :: oneByOne ps).count p
    by_cases here : q = p
    · simp [here]
    · rw [List.count_cons_of_ne here, List.count_cons_of_ne here]
      exact ih ((List.mem_cons.mp listed).resolve_left (Ne.symm here))

theorem tell_done {outcome : FileOutcome} (done : w.stage p = .done outcome) (s : BatchSummary) :
    w.tell s p = s.add outcome := by
  rw [Work.tell, done]

/-- The batch adds to a summary what its schedule makes of the files. -/
theorem migrateFiles_eq (distinct : ps.Nodup) (waiting : ∀ p ∈ ps, w.stage p = .waiting)
    (s : BatchSummary) :
    migrateFiles config mode ps s w.files =
      (ps.foldl (w.run config mode (oneByOne ps)).tell s, (w.run config mode (oneByOne ps)).files) := by
  induction ps generalizing w s with
  | nil => rfl
  | cons p ps ih =>
    obtain ⟨absent, distinct⟩ := List.nodup_cons.mp distinct
    have next : (w.step config mode p).step config mode p = _ := step_step (waiting p List.mem_cons_self)
    have ran : w.run config mode (oneByOne (p :: ps)) =
        ((w.step config mode p).step config mode p).run config mode (oneByOne ps) := rfl
    have mine : ((w.run config mode (oneByOne (p :: ps))).stage p) =
        .done (migrateFile config mode w.files p).1 := by
      rw [ran, run_stage_of_not_mem _ fun listed => absent (mem_oneByOne.mp listed), next, note_stage_self]
    have waiting' : ∀ q ∈ ps, ((w.step config mode p).step config mode p).stage q = .waiting := by
      intro q listed
      have apart : q ≠ p := fun same => absent (same ▸ listed)
      rw [step_stage_of_ne config mode _ apart, step_stage_of_ne config mode w apart]
      exact waiting q (List.mem_cons_of_mem _ listed)
    have rest := ih distinct waiting' (s.add (migrateFile config mode w.files p).1)
    rw [next] at rest
    rw [List.foldl_cons, tell_done mine, ran, next]
    exact rest

/-! ## Summaries -/

def FileOutcome.change? : FileOutcome → Option ChangedFile
  | .changed f => some f
  | _ => none

def FileOutcome.failure? : FileOutcome → Option FileFailure
  | .failed e => some e
  | _ => none

/-- The summary of what became of the files. -/
def tallied (mode : BatchMode) (outcomes : List FileOutcome) : BatchSummary where
  mode := mode
  scanned := outcomes.length
  changed := outcomes.filterMap FileOutcome.change?
  unchanged := outcomes.count .unchanged
  skippedTests := outcomes.count .skippedTest
  failures := outcomes.filterMap FileOutcome.failure?

theorem foldl_add (s : BatchSummary) (outcomes : List FileOutcome) :
    outcomes.foldl BatchSummary.add s =
      { s with
        changed := s.changed ++ outcomes.filterMap FileOutcome.change?
        unchanged := s.unchanged + outcomes.count .unchanged
        skippedTests := s.skippedTests + outcomes.count .skippedTest
        failures := s.failures ++ outcomes.filterMap FileOutcome.failure? } := by
  induction outcomes generalizing s with
  | nil => simp
  | cons x outcomes ih =>
    rw [List.foldl_cons, ih]
    cases x with
    | changed f => simp [BatchSummary.add, List.filterMap_cons, FileOutcome.change?, FileOutcome.failure?]
    | failed e => simp [BatchSummary.add, List.filterMap_cons, FileOutcome.change?, FileOutcome.failure?]
    | unchanged =>
      simp [BatchSummary.add, List.filterMap_cons, FileOutcome.change?, FileOutcome.failure?,
        Nat.add_comm, Nat.add_left_comm]
    | skippedTest =>
      simp [BatchSummary.add, List.filterMap_cons, FileOutcome.change?, FileOutcome.failure?,
        Nat.add_comm, Nat.add_left_comm]

/-- Every file counts once. -/
theorem tallied_accounts (mode : BatchMode) (outcomes : List FileOutcome) :
    (tallied mode outcomes).scanned = (tallied mode outcomes).changed.length +
      (tallied mode outcomes).unchanged + (tallied mode outcomes).skippedTests +
      (tallied mode outcomes).failures.length := by
  induction outcomes with
  | nil => rfl
  | cons x outcomes ih =>
    simp only [tallied] at ih ⊢
    cases x <;> simp [List.filterMap_cons, FileOutcome.change?, FileOutcome.failure?] <;> omega

theorem summary_eq {outcome : Path → FileOutcome}
    (done : ∀ p ∈ ps, w.stage p = .done (outcome p)) :
    w.summary mode ps = tallied mode (ps.map outcome) := by
  have folded (s : BatchSummary) : ps.foldl w.tell s = (ps.map outcome).foldl BatchSummary.add s := by
    rw [List.foldl_map]
    exact List.foldl_ext _ _ s fun s p listed => tell_done (done p listed) s
  unfold Work.summary
  rw [folded, foldl_add]
  simp [tallied]

/-! ## What a batch leaves -/

/-- Where nothing may be written, a file is done when it is read. -/
theorem Becomes.looked {x : FileOutcome} (becomes : Becomes config files p x) :
    looked config .dryRun files p = .done x := by
  cases becomes with
  | test isTest => simp [Codemod.looked, isTest]
  | unreadable notTest unread => simp [Codemod.looked, notTest, inspect, unread]
  | refused notTest reads refused => simp [Codemod.looked, notTest, inspect, reads, refused]
  | unchanged notTest reads ran same =>
    have changed := migrateWith_changed ran
    simp [Codemod.looked, notTest, inspect, reads, ran, changed, same]
  | changed migrates =>
    have changed := migrateWith_changed migrates.ran
    simp [Codemod.looked, migrates.notTest, inspect, migrates.reads, migrates.ran, changed,
      migrates.differs]

/-- One thing becomes of a file. -/
theorem becomes_unique (config : Config) (files : Tree) (p : Path) :
    ∃ x, ∀ y, Becomes config files p y ↔ y = x := by
  have tells := looked_tells config .dryRun files p
  have left := looked_left config .dryRun files p
  cases stage : looked config .dryRun files p with
  | waiting =>
    rw [stage] at left
    exact absurd left (by decide)
  | writing o =>
    rw [stage] at tells
    cases tells with
    | writing writes => cases writes
  | done x =>
    rw [stage] at tells
    cases tells with
    | done becomes =>
      refine ⟨x, fun y => ⟨fun becomes' => ?_, fun same => same ▸ becomes⟩⟩
      exact Stage.done.inj (becomes'.looked.symm.trans stage)

/-- Whether a schedule takes the files alone, and each of them twice or more. -/
structure Schedules (ps schedule : List Path) : Prop where
  within : ∀ p ∈ schedule, p ∈ ps
  twice : ∀ p ∈ ps, 2 ≤ schedule.count p

/-- What the work is at the end of a batch that began with `files`. -/
structure Leaves (config : Config) (mode : BatchMode) (files : Tree) (ps : List Path)
    (outcome : Path → FileOutcome) (w : Work) : Prop where
  summary : w.summary mode ps = tallied mode (ps.map outcome)
  dry : mode = .dryRun → w.files = files
  changed : mode = .write → ∀ p ∈ ps, ∀ t o, Migrates config files p t o →
    ∃ loc, files.locate p = .ok loc ∧ files.sight loc = .file (.text t) ∧
      w.files.sight loc = .file (.text o.source)
  others : ∀ l, (∀ p ∈ ps, ∀ f, outcome p = .changed f → files.locate p ≠ .ok l) →
    w.files.sight l = files.sight l

theorem Schedules.leaves {schedule : List Path} (schedules : Schedules ps schedule)
    (apart : Apart files ps) {outcome : Path → FileOutcome}
    (becomes : ∀ p ∈ ps, ∀ x, Becomes config files p x ↔ x = outcome p) (mode : BatchMode) :
    Leaves config mode files ps outcome ((Work.begun files).run config mode schedule) := by
  have sound := (sound_begun config mode files ps).run apart schedules.within
  have done : ∀ p ∈ ps,
      ((Work.begun files).run config mode schedule).stage p = .done (outcome p) := by
    intro p listed
    obtain ⟨x, stage⟩ := done_of_two config mode files (schedules.twice p listed)
    have tells := sound.stages p listed
    rw [stage] at tells ⊢
    cases tells with
    | done became => rw [(becomes p listed x).mp became]
  refine ⟨summary_eq done, sound.dry, ?_, ?_⟩
  · intro writes p listed t o migrates
    obtain ⟨loc, located, stands⟩ := Tree.read_eq_ok.mp migrates.reads
    refine ⟨loc, located, stands, sound.written p listed o loc ⟨writes, ⟨t, migrates⟩, ?_⟩ located⟩
    rw [done p listed, ← (becomes p listed _).mp (.changed migrates)]
  · intro l free
    refine sound.others l fun p listed o wrote => free p listed ⟨p, o.applied, o.preset, o.role⟩ ?_
    have stage := wrote.2.2
    rw [done p listed] at stage
    exact Stage.done.inj stage

theorem oneByOne_schedules (ps : List Path) : Schedules ps (oneByOne ps) where
  within := fun _ => mem_oneByOne.mp
  twice := fun _ => count_oneByOne

/-- The batch goes through what is found one by one. -/
theorem migrateBatch_eq {roots : List Path} (found : discover files roots = .ok ps) (config : Config)
    (mode : BatchMode) :
    let w := (Work.begun files).run config mode (oneByOne ps)
    migrateBatch config mode files roots = .ok (w.summary mode ps, w.files) := by
  have batch : migrateFiles config mode ps { mode, scanned := ps.length } (Work.begun files).files = _ :=
    migrateFiles_eq (discover_nodup found) (fun _ _ => rfl) _
  unfold migrateBatch
  rw [found]
  exact congrArg Except.ok batch

/-- Whatever the files are and in whatever order their steps are taken, every file that is found is in
one class; a dry run leaves the files as they are, and otherwise the files that change are written and
nothing else is. The batch is one such schedule, and its dry run says the same of the files. -/
theorem batch_frame {roots : List Path} (exist : ∀ root ∈ roots, ∃ t, files.find root = .ok t)
    (apart : ∀ ps, discover files roots = .ok ps → Apart files ps) (config : Config) :
    ∃ ps outcome, discover files roots = .ok ps ∧
      (∀ p ∈ ps, ∀ x, Becomes config files p x ↔ x = outcome p) ∧
      (∀ mode, let s := tallied mode (ps.map outcome)
        s.scanned = ps.length ∧
          s.scanned = s.changed.length + s.unchanged + s.skippedTests + s.failures.length) ∧
      (∀ mode schedule, Schedules ps schedule →
        Leaves config mode files ps outcome ((Work.begun files).run config mode schedule)) ∧
      (∀ mode, ∃ schedule, Schedules ps schedule ∧
        let w := (Work.begun files).run config mode schedule
        migrateBatch config mode files roots = .ok (w.summary mode ps, w.files)) ∧
      ∀ schedule schedule', Schedules ps schedule → Schedules ps schedule' →
        ((Work.begun files).run config .dryRun schedule).summary .dryRun ps =
          { ((Work.begun files).run config .write schedule').summary .write ps with mode := .dryRun } := by
  obtain ⟨ps, found⟩ := discover_ok exist
  choose outcome becomes using becomes_unique config files
  have leaves (mode : BatchMode) (schedule : List Path) (schedules : Schedules ps schedule) :=
    schedules.leaves (apart ps found) (fun p _ => becomes p) mode
  refine ⟨ps, outcome, found, fun p _ => becomes p, fun mode => ⟨?_, tallied_accounts mode _⟩, leaves,
    fun mode => ⟨oneByOne ps, oneByOne_schedules ps, migrateBatch_eq found config mode⟩, ?_⟩
  · exact List.length_map outcome
  · intro schedule schedule' schedules schedules'
    rw [(leaves .dryRun schedule schedules).summary, (leaves .write schedule' schedules').summary]
    rfl

def oneGet : Text := "import c from'@/lib/api'\nc.get('/x')".toList

def oneGetMigrated : Text :=
  "import \x7b createPresetApiClient \x7d from'@/lib/api'\ncreatePresetApiClient('default').get('/x')".toList

/-- A test, a file that changes, one that is no text, and one that is no source. -/
def mixedFiles : Tree :=
  .directory [("src", .directory
    [("client.test.ts", .file (.text oneGet)), ("client.ts", .file (.text oneGet)),
     ("image.ts", .file (.binary [0xff])), ("notes.md", .file (.text oneGet))])]

theorem mixedFiles_found : discover mixedFiles [⟨"src"⟩] =
    .ok [⟨"src/client.test.ts"⟩, ⟨"src/client.ts"⟩, ⟨"src/image.ts"⟩] := by
  have candidates : candidatesOf mixedFiles [⟨"src"⟩] =
      .ok [⟨"src/client.test.ts"⟩, ⟨"src/client.ts"⟩, ⟨"src/image.ts"⟩] := by decide +kernel
  unfold discover
  rw [candidates]
  show Except.ok (withoutRepeats (List.mergeSort _ _)) = _
  rw [List.mergeSort_of_pairwise (by decide +kernel)]
  have first : Path.compare ⟨"src/client.test.ts"⟩ ⟨"src/client.ts"⟩ = .lt := by decide +kernel
  have second : Path.compare ⟨"src/client.ts"⟩ ⟨"src/image.ts"⟩ = .lt := by decide +kernel
  simp [withoutRepeats, first, second]

theorem mixedFiles_apart :
    Apart mixedFiles [⟨"src/client.test.ts"⟩, ⟨"src/client.ts"⟩, ⟨"src/image.ts"⟩] := by
  have distinct : ∀ p ∈ [Path.mk "src/client.test.ts", ⟨"src/client.ts"⟩, ⟨"src/image.ts"⟩],
      ∀ q ∈ [Path.mk "src/client.test.ts", ⟨"src/client.ts"⟩, ⟨"src/image.ts"⟩],
        mixedFiles.locate p = mixedFiles.locate q → p = q := by
    decide +kernel
  intro p listed q listed' loc located located'
  exact distinct p listed q listed' (located.trans located'.symm)

theorem mixedFiles_migrates : Migrates {} mixedFiles ⟨"src/client.ts"⟩ oneGet
    ⟨true, oneGetMigrated, [.defaultImport, .callSites], .default, .apiModule⟩ where
  notTest := by decide +kernel
  reads := by decide +kernel
  ran := by decide +kernel
  differs := by decide

/-- One file of four is written, and all else stays. -/
theorem mixedFiles_written : ∃ s u, migrateBatch {} .write mixedFiles [⟨"src"⟩] = .ok (s, u) ∧
    u.sight ["src", "client.ts"] = .file (.text oneGetMigrated) ∧
    ∀ l, l ≠ ["src", "client.ts"] → u.sight l = mixedFiles.sight l := by
  have there : (mixedFiles.find ⟨"src"⟩).isOk = true := by decide +kernel
  have exist : ∀ root ∈ [Path.mk "src"], ∃ t, mixedFiles.find root = .ok t := by
    intro root listed
    rw [List.mem_singleton.mp listed]
    exact Tree.find_of_isOk there
  obtain ⟨ps, outcome, found, becomes, _, leaves, batch, _⟩ :=
    batch_frame exist (fun ps found => by
      rw [mixedFiles_found] at found
      cases found
      exact mixedFiles_apart) {}
  rw [mixedFiles_found] at found
  cases found
  obtain ⟨schedule, schedules, ran⟩ := batch .write
  have left := leaves .write schedule schedules
  have located : mixedFiles.locate ⟨"src/client.ts"⟩ = .ok ["src", "client.ts"] := by decide +kernel
  refine ⟨_, _, ran, ?_, fun l elsewhere => left.others l fun p listed f changed located' => ?_⟩
  · obtain ⟨loc, located', _, written⟩ := left.changed rfl ⟨"src/client.ts"⟩ (by simp) _ _ mixedFiles_migrates
    cases located.symm.trans located'
    exact written
  · have class' (x : FileOutcome) (became : Becomes {} mixedFiles p x) : x = .changed f :=
      ((becomes p listed x).mp became).trans changed
    simp only [List.mem_cons, List.not_mem_nil, or_false] at listed
    rcases listed with rfl | rfl | rfl
    · cases class' _ (.test (by decide +kernel))
    · cases located.symm.trans located'
      exact elsewhere rfl
    · have unread : mixedFiles.read ⟨"src/image.ts"⟩ = .error .notText := by decide +kernel
      cases class' _ (.unreadable (by decide +kernel) unread)

end Codemod

end ClientMigration
