/-
# Proofs.Codemod.Run -- one rule after the other

A rule leaves a draft as it is, or fails, or gives the draft another text that
reads (`step_ok`, `step_invalid_iff`). A run is a fold of such steps, so its
output is refused exactly where one rule's is, on the draft that the rules before
it gave (`migrateWith_invalid_iff`), and the draft of a rule reads as its tree
(`Reached.reads`). What each rule preserves, a run preserves (`Leads.preserves`).
-/
import Mathlib.Data.List.Nodup
import ClientMigration.Codemod.Migration

namespace ClientMigration.Codemod

set_option autoImplicit false

open Script

variable {read : Reader} {config : Config} {path : Path} {source : Text} {s : Setting}

/-! ## One rule -/

/-- What a rule makes of a draft's text, if its edits can be applied. -/
def rewritten (s : Setting) (d : Draft) (rule : Rule) : Except Edit.Error Text :=
  Edit.apply d.text (rule.edits s d.tree d.text)

theorem applyFrom_nil (t : Text) : Edit.applyFrom t 0 [] = .ok t := by
  cases t <;> rfl

theorem rewritten_of_no_edits {d : Draft} {rule : Rule} (none : rule.edits s d.tree d.text = []) :
    rewritten s d rule = .ok d.text := by
  unfold rewritten
  rw [none]
  exact applyFrom_nil d.text

/-- A step in terms of the text that the rule makes. -/
theorem step_eq (d : Draft) (rule : Rule) :
    Draft.step read path s d rule =
      match rewritten s d rule with
      | .error e => .error (.ofEdit rule.name e)
      | .ok text =>
        if text == d.text then .ok d
        else
          match read (hasMarkup path) text with
          | .error _ => .error (.invalidOutput rule.name path)
          | .ok tree => .ok ⟨text, tree, d.applied ++ [rule]⟩ := by
  unfold Draft.step
  cases edits : rule.edits s d.tree d.text with
  | nil =>
      rw [rewritten_of_no_edits edits]
      simp
  | cons e es =>
      simp only [rewritten, edits] <;> rfl

theorem step_ok {d d' : Draft} {rule : Rule} (stepped : Draft.step read path s d rule = .ok d') :
    (d' = d ∧ rewritten s d rule = .ok d.text) ∨
      ∃ text tree, rewritten s d rule = .ok text ∧ text ≠ d.text ∧
        read (hasMarkup path) text = .ok tree ∧ d' = ⟨text, tree, d.applied ++ [rule]⟩ := by
  rw [step_eq] at stepped
  cases made : rewritten s d rule with
  | error e => simp [made] at stepped
  | ok text =>
      simp only [made] at stepped
      by_cases same : text = d.text
      · simp only [same, beq_self_eq_true, if_true, Except.ok.injEq] at stepped
        exact Or.inl ⟨stepped.symm, by rw [same]⟩
      · have differs : (text == d.text) = false := by simpa using same
        simp only [differs] at stepped
        cases reads : read (hasMarkup path) text with
        | error e => simp [reads] at stepped
        | ok tree =>
            simp only [reads] at stepped
            exact Or.inr ⟨text, tree, rfl, same, reads, by simpa using stepped.symm⟩

/-- After a step the draft has the text that the rule makes, and its tree. -/
theorem step_made {d d' : Draft} {rule : Rule} (reads : read (hasMarkup path) d.text = .ok d.tree)
    (stepped : Draft.step read path s d rule = .ok d') :
    rewritten s d rule = .ok d'.text ∧ read (hasMarkup path) d'.text = .ok d'.tree := by
  rcases step_ok stepped with ⟨rfl, made⟩ | ⟨text, tree, made, _, read', rfl⟩
  · exact ⟨made, reads⟩
  · exact ⟨made, read'⟩

/-- A rule's text is refused exactly if it differs from the draft's and does not read. -/
theorem step_invalid_iff {d : Draft} {rule : Rule} {r : String} {p : Path} :
    Draft.step read path s d rule = .error (.invalidOutput r p) ↔
      r = rule.name ∧ p = path ∧ ∃ text e, rewritten s d rule = .ok text ∧ text ≠ d.text ∧
        read (hasMarkup path) text = .error e := by
  rw [step_eq]
  cases made : rewritten s d rule with
  | error e => cases e <;> simp [Failure.ofEdit]
  | ok text =>
      simp only
      by_cases same : text = d.text
      · simp [same]
      · have differs : (text == d.text) = false := by simpa using same
        simp only [differs]
        cases reads : read (hasMarkup path) text with
        | error e =>
            simp only [Bool.false_eq_true, if_false, Except.error.injEq, Failure.invalidOutput.injEq]
            constructor
            · rintro ⟨rfl, rfl⟩
              exact ⟨rfl, rfl, text, e, rfl, same, reads⟩
            · rintro ⟨rfl, rfl, _⟩
              exact ⟨rfl, rfl⟩
        | ok tree =>
            simp only [Bool.false_eq_true, if_false, reduceCtorEq, false_iff, not_and, not_exists]
            rintro _ _ other e found _ refused
            cases found
            rw [reads] at refused
            cases refused

/-! ## The rules in turn -/

theorem foldlM_cons_ok {α β ε : Type} {f : β → α → Except ε β} {x : α} {xs : List α} {b d : β}
    (first : f b x = .ok d) : (x :: xs).foldlM f b = xs.foldlM f d := by
  rw [List.foldlM_cons, first]
  rfl

theorem foldlM_cons_error {α β ε : Type} {f : β → α → Except ε β} {x : α} {xs : List α} {b : β}
    {e : ε} (first : f b x = .error e) : (x :: xs).foldlM f b = .error e := by
  rw [List.foldlM_cons, first]
  rfl

theorem foldlM_cons_inv {α β ε : Type} {f : β → α → Except ε β} {x : α} {xs : List α} {b d : β}
    (ran : (x :: xs).foldlM f b = .ok d) : ∃ next, f b x = .ok next ∧ xs.foldlM f next = .ok d := by
  cases first : f b x with
  | error e =>
      rw [foldlM_cons_error first] at ran
      cases ran
  | ok next => exact ⟨next, rfl, (foldlM_cons_ok first).symm.trans ran⟩

theorem foldlM_append_inv {α β ε : Type} {f : β → α → Except ε β} {ys : List α} {d : β} :
    ∀ {xs : List α} {b : β}, (xs ++ ys).foldlM f b = .ok d →
      ∃ next, xs.foldlM f b = .ok next ∧ ys.foldlM f next = .ok d
  | [], b, ran => ⟨b, rfl, ran⟩
  | x :: xs, b, ran => by
      obtain ⟨c, first, rest⟩ := foldlM_cons_inv ran
      obtain ⟨next, front, back⟩ := foldlM_append_inv rest
      exact ⟨next, (foldlM_cons_ok first).trans front, back⟩

theorem foldlM_concat {α β ε : Type} {f : β → α → Except ε β} {x : α} {c d : β}
    (last : f c x = .ok d) : ∀ {xs : List α} {b : β}, xs.foldlM f b = .ok c →
      (xs ++ [x]).foldlM f b = .ok d
  | [], b, ran => by
      cases ran
      exact foldlM_cons_ok last
  | y :: ys, b, ran => by
      obtain ⟨next, first, rest⟩ := foldlM_cons_inv ran
      exact (foldlM_cons_ok first).trans (foldlM_concat last rest)

/-- A fold that may fail fails where one of its steps does. -/
theorem foldlM_error {α β ε : Type} {f : β → α → Except ε β} {e : ε} : ∀ {xs : List α} {b : β},
    xs.foldlM f b = .error e ↔
      ∃ before x after d, xs = before ++ x :: after ∧ before.foldlM f b = .ok d ∧ f d x = .error e
  | [], b => by
      constructor
      · intro failed
        cases failed
      · rintro ⟨before, x, after, d, split, _⟩
        simp at split
  | x :: xs, b => by
      cases first : f b x with
      | error e' =>
          rw [foldlM_cons_error first]
          constructor
          · intro same
            exact ⟨[], x, xs, b, rfl, rfl, first.trans same⟩
          · rintro ⟨_ | ⟨y, before⟩, x', after, d, split, reached, failed⟩
            · cases split
              cases reached
              exact first.symm.trans failed
            · cases split
              rw [foldlM_cons_error first] at reached
              cases reached
      | ok d =>
          rw [foldlM_cons_ok first, foldlM_error]
          constructor
          · rintro ⟨before, x', after, d', rfl, reached, failed⟩
            exact ⟨x :: before, x', after, d', rfl, (foldlM_cons_ok first).trans reached, failed⟩
          · rintro ⟨_ | ⟨y, before⟩, x', after, d', split, reached, failed⟩
            · cases split
              cases reached
              rw [first] at failed
              cases failed
            · cases split
              rw [foldlM_cons_ok first] at reached
              exact ⟨before, x', after, d', rfl, reached, failed⟩

/-- The setting in which the rules run on a tree. -/
def settingOf (config : Config) (preset : Preset) (source : Text) (tree : Node) : Setting :=
  ⟨config, preset, Bindings.collect config source tree⟩

/-- The setting of a run and the draft that a rule finds in it. -/
structure Reached (read : Reader) (config : Config) (path : Path) (source : Text) (rule : Rule)
    (s : Setting) (d : Draft) : Prop where
  notTest : isTestPath path = false
  run : ∃ tree before after, read (hasMarkup path) source = .ok tree ∧
    s = settingOf config (detectPreset path source config.defaultPreset) source tree ∧
    Rule.all = before ++ rule :: after ∧
    before.foldlM (Draft.step read path s) ⟨source, tree, []⟩ = .ok d

theorem treeOf_ok {tree : Node} (reads : read (hasMarkup path) source = .ok tree) :
    treeOf read path source = .ok tree := by
  unfold treeOf
  rw [reads]

/-- A run on a file that is no test and reads. -/
theorem migrateWith_run {tree : Node} (notTest : isTestPath path = false)
    (reads : read (hasMarkup path) source = .ok tree) :
    migrateWith read config path source =
      match Rule.all.foldlM
        (Draft.step read path
          (settingOf config (detectPreset path source config.defaultPreset) source tree))
        ⟨source, tree, []⟩ with
      | .error e => .error e
      | .ok d => .ok ⟨d.text != source, d.text, d.applied,
          detectPreset path source config.defaultPreset, FileRole.ofPath path⟩ := by
  unfold migrateWith
  simp only [notTest, treeOf_ok reads]
  rfl

/-- A run has changed a file if the text is another one. -/
theorem migrateWith_changed {o : Outcome} (ran : migrateWith read config path source = .ok o) :
    o.changed = (o.source != source) := by
  unfold migrateWith at ran
  simp only at ran
  split at ran
  · cases ran
    exact (bne_self_eq_false source).symm
  · split at ran
    · cases ran
    · split at ran
      · cases ran
      · cases ran
        rfl

/-- The output of a run is refused exactly if a rule refuses it for a draft that it finds. -/
theorem migrateWith_invalid_iff {r : String} {p : Path} :
    migrateWith read config path source = .error (.invalidOutput r p) ↔
      ∃ rule s d, Reached read config path source rule s d ∧
        Draft.step read path s d rule = .error (.invalidOutput r p) := by
  cases test : isTestPath path with
  | true =>
      constructor
      · intro failed
        simp [migrateWith, test] at failed
      · rintro ⟨_, _, _, reached, _⟩
        exact absurd reached.notTest (by simp [test])
  | false =>
      cases reads : read (hasMarkup path) source with
      | error e =>
          constructor
          · intro failed
            simp [migrateWith, test, treeOf, reads] at failed
          · rintro ⟨_, _, _, reached, _⟩
            obtain ⟨tree, _, _, reads', _⟩ := reached.run
            rw [reads] at reads'
            cases reads'
      | ok tree =>
          rw [migrateWith_run test reads]
          constructor
          · intro failed
            split at failed
            · rename_i e ran
              cases failed
              obtain ⟨before, rule, after, d, split, reached, refused⟩ := foldlM_error.mp ran
              exact ⟨rule, _, d, ⟨test, tree, before, after, reads, rfl, split, reached⟩, refused⟩
            · cases failed
          · rintro ⟨rule, s, d, reached, refused⟩
            obtain ⟨tree', before, after, reads', rfl, split, ran⟩ := reached.run
            rw [reads] at reads'
            cases reads'
            rw [foldlM_error.mpr ⟨before, rule, after, d, split, ran, refused⟩]

/-- The draft that a rule finds reads as its tree. -/
theorem foldlM_reads : ∀ {rules : List Rule} {d d' : Draft},
    rules.foldlM (Draft.step read path s) d = .ok d' →
      read (hasMarkup path) d.text = .ok d.tree → read (hasMarkup path) d'.text = .ok d'.tree
  | [], d, d', ran, reads => by
      cases ran
      exact reads
  | rule :: rules, d, d', ran, reads => by
      obtain ⟨next, stepped, ran⟩ := foldlM_cons_inv ran
      exact foldlM_reads ran (step_made reads stepped).2

theorem Reached.config_eq {rule : Rule} {d : Draft}
    (reached : Reached read config path source rule s d) : s.config = config := by
  obtain ⟨_, _, _, _, rfl, _⟩ := reached.run
  rfl

theorem Reached.reads {rule : Rule} {d : Draft} (reached : Reached read config path source rule s d) :
    read (hasMarkup path) d.text = .ok d.tree := by
  obtain ⟨tree, before, after, reads, rfl, split, ran⟩ := reached.run
  exact foldlM_reads ran reads

/-- The setting of a run and the draft that the first rules of it give. -/
structure Leads (read : Reader) (config : Config) (path : Path) (source : Text) (before : List Rule)
    (s : Setting) (d : Draft) : Prop where
  notTest : isTestPath path = false
  run : ∃ tree, read (hasMarkup path) source = .ok tree ∧
    s = settingOf config (detectPreset path source config.defaultPreset) source tree ∧
    before.foldlM (Draft.step read path s) ⟨source, tree, []⟩ = .ok d

theorem Leads.reached {before after : List Rule} {rule : Rule} {d : Draft}
    (leads : Leads read config path source before s d) (split : Rule.all = before ++ rule :: after) :
    Reached read config path source rule s d := by
  obtain ⟨tree, reads, same, ran⟩ := leads.run
  exact ⟨leads.notTest, tree, before, after, reads, same, split, ran⟩

theorem Leads.step {before : List Rule} {rule : Rule} {d d' : Draft}
    (leads : Leads read config path source before s d)
    (stepped : Draft.step read path s d rule = .ok d') :
    Leads read config path source (before ++ [rule]) s d' := by
  obtain ⟨tree, reads, same, ran⟩ := leads.run
  exact ⟨leads.notTest, tree, reads, same, foldlM_concat stepped ran⟩

/-- What each of some rules preserves, they preserve together. -/
theorem Leads.preserves {P : Draft → Prop} : ∀ {rules before after : List Rule} {d d' : Draft},
    Rule.all = before ++ rules ++ after → Leads read config path source before s d →
    rules.foldlM (Draft.step read path s) d = .ok d' →
    (∀ rule ∈ rules, ∀ d d' : Draft, Reached read config path source rule s d →
      rewritten s d rule = .ok d'.text → read (hasMarkup path) d'.text = .ok d'.tree → P d → P d') →
    P d → P d'
  | [], before, after, d, d', _, _, ran, _, holds => by
      cases ran
      exact holds
  | rule :: rules, before, after, d, d', split, leads, ran, step, holds => by
      obtain ⟨next, stepped, ran⟩ := foldlM_cons_inv ran
      have here : Rule.all = before ++ rule :: (rules ++ after) := by
        rw [split]
        simp
      have further : Rule.all = before ++ [rule] ++ rules ++ after := by
        rw [split]
        simp
      have reached := leads.reached here
      obtain ⟨made, reads⟩ := step_made reached.reads stepped
      exact Leads.preserves further (leads.step stepped) ran
        (fun r listed => step r (List.mem_cons_of_mem _ listed))
        (step rule List.mem_cons_self d next reached made reads holds)

/-- A rule finds one draft in a run. -/
theorem Reached.unique {rule : Rule} {s' : Setting} {d d' : Draft}
    (first : Reached read config path source rule s d)
    (second : Reached read config path source rule s' d') : s' = s ∧ d' = d := by
  obtain ⟨tree, before, after, reads, rfl, split, ran⟩ := first.run
  obtain ⟨tree', before', after', reads', rfl, split', ran'⟩ := second.run
  cases reads.symm.trans reads'
  have once : (before ++ rule :: after).Nodup := by
    rw [← split]
    decide
  have elsewhere := (List.nodup_cons.mp (List.nodup_middle.mp once)).1
  rw [List.mem_append, not_or] at elsewhere
  have parts := (List.append_cons_inj_of_notMem elsewhere.1 elsewhere.2).mp (split.symm.trans split')
  rw [parts.1] at ran
  cases ran.symm.trans ran'
  exact ⟨rfl, rfl⟩

end ClientMigration.Codemod
