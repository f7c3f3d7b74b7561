/-
# Proofs.Codemod.Applied -- what a run says of itself

A run carries a text, its tree and the rules that changed it. Each rule is given
the draft of the rules before it, so a rule is noted exactly if it made another
text of its draft (`foldlM_applied`), and the notes are a part of the list of all
rules in its order. The three sources of a failure are kept apart: a text that
does not read fails before the first rule (`migrateWith_unreadable_iff`), and all
that fails later fails in the step of a rule and bears its name
(`migrateWith_error_iff`). What a batch notes of a file follows
(`inspect_parseFailure`).
-/
import ClientMigration.Codemod.Batch
import ClientMigration.Proofs.Codemod.SecondRun

namespace ClientMigration.Codemod

set_option autoImplicit false

open Script

variable {read : Reader} {config : Config} {path : Path} {source : Text} {s : Setting}

/-! ## Rules that are noted -/

/-- A rule makes another text of a draft. -/
def Rewrites (s : Setting) (d : Draft) (rule : Rule) : Prop :=
  ∃ text, rewritten s d rule = .ok text ∧ text ≠ d.text

theorem Rewrites.not_still {d : Draft} {rule : Rule} (rewrites : Rewrites s d rule) :
    rewritten s d rule ≠ .ok d.text := by
  obtain ⟨text, made, differs⟩ := rewrites
  intro still
  rw [made] at still
  exact differs (Except.ok.inj still)

/-- The rules that a fold notes are those that rewrote the drafts which they were given. -/
theorem foldlM_applied {rules : List Rule} {d d' : Draft} (once : rules.Nodup)
    (ran : rules.foldlM (Draft.step read path s) d = .ok d') :
    ∃ noted, d'.applied = d.applied ++ noted ∧ noted.Sublist rules ∧
      ∀ before rule after c, rules = before ++ rule :: after →
        before.foldlM (Draft.step read path s) d = .ok c → (rule ∈ noted ↔ Rewrites s c rule) := by
  induction rules generalizing d with
  | nil =>
      cases ran
      refine ⟨[], (List.append_nil _).symm, List.Sublist.slnil, ?_⟩
      intro before rule after c split
      simp at split
  | cons first rules further =>
      obtain ⟨absent, once'⟩ := List.nodup_cons.mp once
      obtain ⟨next, stepped, rest⟩ := foldlM_cons_inv ran
      obtain ⟨noted, all, sub, iff⟩ := further once' rest
      -- a rule behind the first is given the same draft in the rest of the fold
      have later {before rule after c} (split : first :: rules = before ++ rule :: after)
          (behind : before ≠ []) (reached : before.foldlM (Draft.step read path s) d = .ok c) :
          rule ≠ first ∧ (rule ∈ noted ↔ Rewrites s c rule) := by
        cases before with
        | nil => exact absurd rfl behind
        | cons first' before =>
            obtain ⟨rfl, split'⟩ := List.cons_eq_cons.mp split
            rw [foldlM_cons_ok stepped] at reached
            refine ⟨?_, iff before rule after c split' reached⟩
            rintro rfl
            exact absent (split' ▸ by simp)
      rcases step_ok stepped with ⟨rfl, still⟩ | ⟨text, tree, made, differs, _, rfl⟩
      · refine ⟨noted, all, sub.cons first, ?_⟩
        intro before rule after c split reached
        by_cases front : before = []
        · subst front
          cases split
          cases reached
          constructor
          · intro listed
            exact absurd (sub.subset listed) absent
          · intro rewrites
            exact absurd still rewrites.not_still
        · exact (later split front reached).2
      · refine ⟨first :: noted, by simp [all], sub.cons_cons first, ?_⟩
        intro before rule after c split reached
        by_cases front : before = []
        · subst front
          cases split
          cases reached
          exact ⟨fun _ => ⟨text, made, differs⟩, fun _ => List.mem_cons_self⟩
        · obtain ⟨other, iff'⟩ := later split front reached
          rw [List.mem_cons, ← iff']
          exact or_iff_right other

/-- The rules that a run notes are those that rewrote the drafts which they found. -/
theorem migrateWith_applied {o : Outcome} (notTest : isTestPath path = false)
    (ran : migrateWith read config path source = .ok o) :
    o.applied.Sublist Rule.all ∧ (o.applied = [] → o.source = source) ∧
      ∀ rule, rule ∈ o.applied ↔ ∃ s d, Reached read config path source rule s d ∧ Rewrites s d rule := by
  obtain ⟨tree, _, reads, _⟩ := migrateWith_ok notTest ran
  rw [migrateWith_run notTest reads] at ran
  split at ran
  · cases ran
  · rename_i d folded
    cases ran
    obtain ⟨noted, all, sub, iff⟩ := foldlM_applied (by decide) folded
    rw [List.nil_append] at all
    subst all
    refine ⟨sub, ?_, ?_⟩
    · intro none
      have none' : d.applied = [] := none
      have still := still_of_applied folded (by rw [none'])
      rw [foldlM_still still] at folded
      cases folded
      rfl
    · intro rule
      obtain ⟨before, after, split⟩ : ∃ before after, Rule.all = before ++ rule :: after :=
        List.append_of_mem (by cases rule <;> decide)
      have front := folded
      rw [split] at front
      obtain ⟨c, reached, _⟩ := foldlM_append_inv front
      have found : Reached read config path source rule _ c :=
        ⟨notTest, tree, before, after, reads, rfl, split, reached⟩
      rw [iff before rule after c split reached]
      constructor
      · intro rewrites
        exact ⟨_, c, found, rewrites⟩
      · rintro ⟨s', c', found', rewrites⟩
        obtain ⟨rfl, rfl⟩ := found.unique found'
        exact rewrites

/-! ## Failures -/

theorem treeOf_error {f : Failure} (failed : treeOf read path source = .error f) :
    f.isUnreadable = true ∧ ∃ e, read (hasMarkup path) source = .error e := by
  unfold treeOf at failed
  cases reads : read (hasMarkup path) source with
  | ok tree => simp [reads] at failed
  | error e =>
      simp only [reads, Except.error.injEq] at failed
      subst failed
      exact ⟨rfl, e, rfl⟩

theorem treeOf_of_error {e : SyntaxError} (refused : read (hasMarkup path) source = .error e) :
    ∃ f, treeOf read path source = .error f := by
  unfold treeOf
  rw [refused]
  exact ⟨_, rfl⟩

/-- A step fails for its edits, or because another text that they make does not read. -/
theorem step_error_iff {d : Draft} {rule : Rule} {f : Failure} :
    Draft.step read path s d rule = .error f ↔
      (∃ e, rewritten s d rule = .error e ∧ f = .ofEdit rule.name e) ∨
        ∃ text e, rewritten s d rule = .ok text ∧ text ≠ d.text ∧
          read (hasMarkup path) text = .error e ∧ f = .invalidOutput rule.name path := by
  rw [step_eq]
  cases made : rewritten s d rule with
  | error e => simp [eq_comm]
  | ok text =>
      by_cases same : text = d.text
      · simp [same]
      · have differs : (text == d.text) = false := by simpa using same
        simp only [differs]
        cases reads : read (hasMarkup path) text with
        | error e => simp [same, reads, eq_comm]
        | ok tree => simp [reads]

/-- The three ways in which a run fails. -/
inductive Fails (read : Reader) (config : Config) (path : Path) (source : Text) : Failure → Prop where
  | unreadable {f : Failure} (notTest : isTestPath path = false)
      (refused : treeOf read path source = .error f) : Fails read config path source f
  | edits {rule : Rule} {s : Setting} {d : Draft} {e : Edit.Error}
      (reached : Reached read config path source rule s d) (made : rewritten s d rule = .error e) :
      Fails read config path source (.ofEdit rule.name e)
  | output {rule : Rule} {s : Setting} {d : Draft} {text : Text} {e : SyntaxError}
      (reached : Reached read config path source rule s d) (made : rewritten s d rule = .ok text)
      (differs : text ≠ d.text) (refused : read (hasMarkup path) text = .error e) :
      Fails read config path source (.invalidOutput rule.name path)

theorem migrateWith_unread {f : Failure} (notTest : isTestPath path = false)
    (refused : treeOf read path source = .error f) :
    migrateWith read config path source = .error f := by
  unfold migrateWith
  simp [notTest, refused]

/-- A run fails where a rule that it comes to does. -/
theorem Reached.fails {rule : Rule} {d : Draft} {f : Failure}
    (reached : Reached read config path source rule s d)
    (failed : Draft.step read path s d rule = .error f) :
    migrateWith read config path source = .error f := by
  obtain ⟨tree, before, after, reads, rfl, split, ran⟩ := reached.run
  rw [migrateWith_run reached.notTest reads, foldlM_error.mpr ⟨before, rule, after, d, split, ran, failed⟩]

theorem migrateWith_error_iff {f : Failure} :
    migrateWith read config path source = .error f ↔ Fails read config path source f := by
  constructor
  · intro failed
    cases test : isTestPath path with
    | true => simp [migrateWith, test] at failed
    | false =>
        cases reads : read (hasMarkup path) source with
        | error e =>
            obtain ⟨f', refused⟩ := treeOf_of_error reads
            rw [migrateWith_unread test refused] at failed
            cases failed
            exact .unreadable test refused
        | ok tree =>
            rw [migrateWith_run test reads] at failed
            split at failed
            · rename_i e folded
              cases failed
              obtain ⟨before, rule, after, d, split, ran, failed⟩ := foldlM_error.mp folded
              have reached : Reached read config path source rule _ d :=
                ⟨test, tree, before, after, reads, rfl, split, ran⟩
              rcases step_error_iff.mp failed with ⟨e, made, rfl⟩ | ⟨text, e, made, differs, refused, rfl⟩
              · exact .edits reached made
              · exact .output reached made differs refused
            · cases failed
  · intro fails
    cases fails with
    | unreadable notTest refused => exact migrateWith_unread notTest refused
    | edits reached made => exact reached.fails (step_error_iff.mpr (Or.inl ⟨_, made, rfl⟩))
    | output reached made differs refused =>
        exact reached.fails (step_error_iff.mpr (Or.inr ⟨_, _, made, differs, refused, rfl⟩))

/-- A file is at fault for a failure exactly if its text does not read. -/
theorem migrateWith_isUnreadable {f : Failure} (failed : migrateWith read config path source = .error f) :
    f.isUnreadable = true ↔ ∃ e, read (hasMarkup path) source = .error e := by
  cases migrateWith_error_iff.mp failed with
  | unreadable _ refused => simp [treeOf_error refused]
  | @edits rule s d e reached made =>
      obtain ⟨tree, _, _, reads, _⟩ := reached.run
      cases e <;> simp [Failure.ofEdit, Failure.isUnreadable, reads]
  | output reached made differs refused =>
      obtain ⟨tree, _, _, reads, _⟩ := reached.run
      simp [Failure.isUnreadable, reads]

theorem migrateWith_unreadable_iff (notTest : isTestPath path = false) :
    (∃ f, migrateWith read config path source = .error f ∧ f.isUnreadable = true) ↔
      ∃ e, read (hasMarkup path) source = .error e := by
  constructor
  · rintro ⟨f, failed, unreadable⟩
    exact (migrateWith_isUnreadable failed).mp unreadable
  · rintro ⟨e, refused⟩
    obtain ⟨f, failed⟩ := treeOf_of_error refused
    exact ⟨f, migrateWith_unread notTest failed, (treeOf_error failed).1⟩

/-! ## Files of a batch -/

/-- What a batch notes of a file that fails is the file's fault exactly if its text does not read. -/
theorem inspect_parseFailure {α : Type} {look : Path → Text → Except Failure α} {files : Tree}
    {failure : FileFailure} (failed : inspect look files path = .error failure)
    (faults : ∀ t f, look path t = .error f →
      (f.isUnreadable = true ↔ ∃ e, read (hasMarkup path) t = .error e)) :
    failure.parseFailure = true ↔
      ∃ t e, files.read path = .ok t ∧ read (hasMarkup path) t = .error e := by
  unfold inspect at failed
  cases found : files.read path with
  | error fault =>
      simp only [found, Except.error.injEq] at failed
      subst failed
      simp [FileFailure.ofFault]
  | ok t =>
      simp only [found] at failed
      cases looked : look path t with
      | ok a => simp [looked] at failed
      | error f =>
          simp only [looked, Except.error.injEq] at failed
          subst failed
          have iff : f.isUnreadable = true ↔ ∃ e, read (hasMarkup path) t = .error e :=
            faults t f looked
          simpa [FileFailure.ofFailure] using iff

theorem inspect_ok {α : Type} {look : Path → Text → Except Failure α} {files : Tree} {a : α}
    (looked : inspect look files path = .ok a) : ∃ t, files.read path = .ok t ∧ look path t = .ok a := by
  unfold inspect at looked
  split at looked
  · cases looked
  · rename_i t found
    split at looked
    · cases looked
    · cases looked
      exact ⟨t, found, by assumption⟩

theorem migrateFile_parseFailure {mode : BatchMode} {files files' : Tree} {failure : FileFailure}
    (failed : migrateFile config mode files path = (.failed failure, files')) :
    failure.parseFailure = true ↔
      ∃ t e, files.read path = .ok t ∧ Script.parse (hasMarkup path) t = .error e := by
  unfold migrateFile at failed
  split at failed
  · cases failed
  · rename_i notTest
    split at failed
    · rename_i f inspected
      cases failed
      exact inspect_parseFailure inspected fun t f => migrateWith_isUnreadable
    · -- the new text could not be written, but the old one was read
      rename_i o inspected
      obtain ⟨t, found, ran⟩ := inspect_ok inspected
      obtain ⟨tree, _, reads, _⟩ := migrateWith_ok (by simpa using notTest) ran
      simp only at failed
      split at failed
      · cases failed
      · cases mode with
        | dryRun => cases failed
        | write =>
            simp only at failed
            split at failed
            · cases failed
            · cases failed
              simp [FileFailure.ofFault, found, reads]

theorem analyze_isUnreadable {f : Failure} (failed : analyze config path source = .error f) :
    f.isUnreadable = true ↔ ∃ e, Script.parse (hasMarkup path) source = .error e := by
  unfold analyze analyzeWith at failed
  simp only at failed
  split at failed
  · cases failed
  · split at failed
    · rename_i e refused
      cases failed
      simp [treeOf_error refused]
    · cases failed

theorem verify_isUnreadable {f : Failure} (failed : verify config path source = .error f) :
    f.isUnreadable = true ↔ ∃ e, Script.parse (hasMarkup path) source = .error e := by
  unfold verify verifyWith at failed
  split at failed
  · rename_i e refused
    cases failed
    simp [treeOf_error refused]
  · cases failed

/-! ## The account of a run -/

/-- For any reader and a file that is no test. A run that succeeds gives a text that reads; it notes, in
the order of the rules and each once, those that made another text of the draft they were given, and a
change exactly if the text is another one. The draft of a rule has its text's tree. A run fails in three
ways: before the first rule exactly if the text does not read, and in a rule, under its name, for its
edits or for a text that does not read. A batch notes a fault of the file exactly if the text that it read
does not read as a module. -/
theorem migrateWith_accounts (read : Reader) (config : Config) (path : Path) (source : Text)
    (notTest : isTestPath path = false) :
    (∀ o, migrateWith read config path source = .ok o →
      (∃ tree, read (hasMarkup path) o.source = .ok tree) ∧
      o.applied.Sublist Rule.all ∧
      (∀ rule, rule ∈ o.applied ↔
        ∃ s d, Reached read config path source rule s d ∧ Rewrites s d rule) ∧
      (o.changed = true ↔ o.source ≠ source) ∧ (o.applied = [] → o.source = source)) ∧
    (∀ rule s d, Reached read config path source rule s d →
      read (hasMarkup path) d.text = .ok d.tree) ∧
    ((∃ f, migrateWith read config path source = .error f ∧ f.isUnreadable = true) ↔
      ∃ e, read (hasMarkup path) source = .error e) ∧
    (∀ f, migrateWith read config path source = .error f ↔ Fails read config path source f) ∧
    (∀ (mode : BatchMode) (files files' : Tree) (failure : FileFailure),
      migrateFile config mode files path = (.failed failure, files') ∨
        inspect (analyze config) files path = .error failure ∨
        inspect (verify config) files path = .error failure →
      (failure.parseFailure = true ↔
        ∃ t e, files.read path = .ok t ∧ Script.parse (hasMarkup path) t = .error e)) := by
  refine ⟨fun o ran => ?_, fun rule s d reached => reached.reads, migrateWith_unreadable_iff notTest,
    fun f => migrateWith_error_iff, fun mode files files' failure failed => ?_⟩
  · obtain ⟨tree, d, _, output, leads⟩ := migrateWith_ok notTest ran
    obtain ⟨sub, none, iff⟩ := migrateWith_applied notTest ran
    obtain ⟨tree, reads, _, folded⟩ := leads.run
    refine ⟨⟨d.tree, ?_⟩, sub, iff, ?_, none⟩
    · rw [output]
      exact foldlM_reads folded reads
    · rw [migrateWith_changed ran, bne_iff_ne]
  · rcases failed with migrated | analyzed | verified
    · exact migrateFile_parseFailure migrated
    · exact inspect_parseFailure analyzed fun t f => analyze_isUnreadable
    · exact inspect_parseFailure verified fun t f => verify_isUnreadable

/-- In a module with one call the call is replaced, and no error helper moves. -/
theorem oneCall_accounts :
    isTestPath ⟨"a.ts"⟩ = false ∧
      (∃ s d, Reached oneRunReader {} ⟨"a.ts"⟩ oneCall .callSites s d ∧ Rewrites s d .callSites) ∧
      ¬ ∃ s d, Reached oneRunReader {} ⟨"a.ts"⟩ oneCall .errorImport s d ∧ Rewrites s d .errorImport := by
  have notTest : isTestPath ⟨"a.ts"⟩ = false := by decide
  obtain ⟨runs, _⟩ := migrateWith_accounts oneRunReader {} ⟨"a.ts"⟩ oneCall notTest
  obtain ⟨_, _, iff, _⟩ := runs _ oneCall_ran
  refine ⟨notTest, (iff .callSites).mp (by decide), ?_⟩
  rw [← iff .errorImport]
  decide

end ClientMigration.Codemod
