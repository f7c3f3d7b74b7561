/-
# Proofs.Codemod.SecondRun -- whether what a run gives is left alone by the next

The legacy names are found once, before the first rule. A rule uses up the
replaceable references to the names found, takes every version off, and moves
every error helper that can move; nothing of that comes back
(`run_uses_up`, `settled_paths`, `settled_errors`). But the last rule can move a
legacy name from a module of error helpers into an import from the unified one,
and there it is a name that the next run finds.

So the next run leaves the text alone exactly if no name that is new among its
bindings has a replaceable reference (`second_run_unchanged_iff`).
`moved_client_rewritten` is a module where one has.
-/
import ClientMigration.Proofs.Codemod.ValidOutput
import ClientMigration.Proofs.Codemod.Settled

namespace ClientMigration.Codemod

set_option autoImplicit false

open Script

variable {read : Reader} {config : Config} {path : Path} {source : Text} {tree : Node} {s : Setting}

/-! ## Runs that leave a text alone -/

/-- A run that changes nothing and in which no rule applies. -/
def LeavesAlone (read : Reader) (config : Config) (path : Path) (source : Text) : Prop :=
  ∃ o, migrateWith read config path source = .ok o ∧ o.changed = false ∧ o.source = source ∧
    o.applied = []

theorem step_still {d : Draft} {rule : Rule} (made : rewritten s d rule = .ok d.text) :
    Draft.step read path s d rule = .ok d := by
  rw [step_eq, made]
  simp only [beq_self_eq_true, if_true]

theorem foldlM_still {d : Draft} : ∀ {rules : List Rule},
    (∀ rule ∈ rules, rewritten s d rule = .ok d.text) →
      rules.foldlM (Draft.step read path s) d = .ok d
  | [], _ => rfl
  | rule :: rules, still => by
      rw [foldlM_cons_ok (step_still (still rule (by simp)))]
      exact foldlM_still fun rule listed => still rule (by simp [listed])

theorem foldlM_applied_le : ∀ {rules : List Rule} {d d' : Draft},
    rules.foldlM (Draft.step read path s) d = .ok d' → d.applied.length ≤ d'.applied.length
  | [], d, d', ran => by
      cases ran
      exact Nat.le_refl _
  | rule :: rules, d, d', ran => by
      obtain ⟨next, stepped, ran⟩ := foldlM_cons_inv ran
      have further := foldlM_applied_le ran
      rcases step_ok stepped with ⟨rfl, _⟩ | ⟨text, tree, _, _, _, rfl⟩
      · exact further
      · simp only [List.length_append] at further
        omega

/-- Where no rule is noted as applied, each has made the text that was there. -/
theorem still_of_applied : ∀ {rules : List Rule} {d d' : Draft},
    rules.foldlM (Draft.step read path s) d = .ok d' → d'.applied.length = d.applied.length →
      ∀ rule ∈ rules, rewritten s d rule = .ok d.text
  | rule :: rules, d, d', ran, same, rule', listed => by
      obtain ⟨next, stepped, rest⟩ := foldlM_cons_inv ran
      rcases step_ok stepped with ⟨rfl, made⟩ | ⟨text, tree, _, _, _, rfl⟩
      · rcases List.mem_cons.mp listed with rfl | later
        · exact made
        · exact still_of_applied rest same rule' later
      · have longer := foldlM_applied_le rest
        simp only [List.length_append, List.length_cons, List.length_nil] at longer
        omega

/-- A text is left alone if every rule makes of it what it is. -/
theorem leavesAlone_iff (notTest : isTestPath path = false)
    (reads : read (hasMarkup path) source = .ok tree) :
    LeavesAlone read config path source ↔
      ∀ rule, rewritten (settingOf config (detectPreset path source config.defaultPreset) source tree)
        ⟨source, tree, []⟩ rule = .ok source := by
  unfold LeavesAlone
  rw [migrateWith_run notTest reads]
  constructor
  · rintro ⟨o, ran, _, _, none⟩ rule
    split at ran
    · cases ran
    · rename_i d folded
      cases ran
      have listed : rule ∈ Rule.all := by cases rule <;> decide
      exact still_of_applied folded (by simp only at none; rw [none]) rule listed
  · intro still
    rw [foldlM_still fun rule _ => still rule]
    exact ⟨_, rfl, by simp, rfl, rfl⟩

/-- A run that succeeds has gone through all rules. -/
theorem migrateWith_ok {o : Outcome} (notTest : isTestPath path = false)
    (ran : migrateWith read config path source = .ok o) :
    ∃ tree d, read (hasMarkup path) source = .ok tree ∧ o.source = d.text ∧
      Leads read config path source Rule.all
        (settingOf config (detectPreset path source config.defaultPreset) source tree) d := by
  cases reads : read (hasMarkup path) source with
  | error e => simp [migrateWith, notTest, treeOf, reads] at ran
  | ok tree =>
      rw [migrateWith_run notTest reads] at ran
      split at ran
      · cases ran
      · rename_i d folded
        cases ran
        exact ⟨tree, d, rfl, rfl, notTest, tree, reads, rfl, folded⟩

/-! ## The next run -/

/-- At the end of a run no literal loses a version and no error helper moves. -/
theorem Leads.settled (law : Faithful read)
    (apart : ∀ {rule d}, Reached read {} path source rule s d → LeavesApart s d rule) {d : Draft}
    (leads : Leads read {} path source Rule.all s d) :
    pathEdits {} d.tree d.text = [] ∧ errorImportEdits s d.tree d.text = [] := by
  obtain ⟨tree, reads, same, ran⟩ := leads.run
  have reads' := foldlM_reads ran reads
  have split : Rule.all = [Rule.defaultImport, .namedImport, .callSites, .authAccessor] ++
    [Rule.versionPrefix, .errorImport] := rfl
  rw [split] at ran
  obtain ⟨d₄, front, ran⟩ := foldlM_append_inv ran
  obtain ⟨d₅, stepped₅, ran⟩ := foldlM_cons_inv ran
  obtain ⟨d₆, stepped₆, ran⟩ := foldlM_cons_inv ran
  cases ran
  have leads₄ : Leads read {} path source
      [.defaultImport, .namedImport, .callSites, .authAccessor] s d₄ :=
    ⟨leads.notTest, tree, reads, same, front⟩
  have reached₄ : Reached read {} path source .versionPrefix s d₄ := leads₄.reached rfl
  have reached₅ : Reached read {} path source .errorImport s d₅ := (leads₄.step stepped₅).reached rfl
  obtain ⟨made₅, reads₅⟩ := step_made reached₄.reads stepped₅
  obtain ⟨made, _⟩ := step_made reached₅.reads stepped₆
  exact ⟨settled_paths law reached₄ (apart reached₄) made₅ reached₅ (apart reached₅) made reads',
    settled_errors law reached₅ (apart reached₅) made reads'⟩

theorem Leads.config_eq {before : List Rule} {d : Draft} (leads : Leads read config path source before s d) :
    s.config = config := by
  obtain ⟨_, _, rfl, _⟩ := leads.run
  rfl

/-- The next run leaves alone what a run gives if no binding has a replaceable reference then. -/
theorem leavesAlone_of_unused (law : Faithful read)
    (apart : ∀ {rule d}, Reached read {} path source rule s d → LeavesApart s d rule) {d : Draft}
    (leads : Leads read {} path source Rule.all s d)
    (unused : ∀ b ∈ (Bindings.collect {} d.text d.tree).list, b.replaceable = 0) :
    LeavesAlone read {} path d.text := by
  obtain ⟨tree, reads, _, ran⟩ := leads.run
  obtain ⟨paths, errors⟩ := leads.settled law apart
  refine (leavesAlone_iff leads.notTest (foldlM_reads ran reads)).mpr fun rule =>
    rewritten_of_no_edits ?_
  cases rule with
  | defaultImport => exact defaultImportEdits_nil unused
  | namedImport => exact namedImportEdits_nil unused
  | callSites => exact callSiteEdits_nil unused
  | authAccessor => exact accessorEdits_nil unused
  | versionPrefix => exact paths
  | errorImport =>
      have sameConfig : (settingOf {} (detectPreset path d.text .default) d.text d.tree).config =
        s.config := leads.config_eq.symm
      exact (errorImportEdits_congr sameConfig).trans errors

/-- A run that leaves a text alone has found no binding with a replaceable reference. -/
theorem LeavesAlone.unused (law : Faithful read) (notTest : isTestPath path = false)
    (reads : read (hasMarkup path) source = .ok tree) (alone : LeavesAlone read {} path source) :
    ∀ b ∈ (Bindings.collect {} source tree).list, b.replaceable = 0 := by
  intro b listed
  by_contra used
  have still := (leavesAlone_iff notTest reads).mp alone
  have wf := (law.regular reads).wellFormed
  have needed : 0 < b.replaceable := Nat.pos_of_ne_zero used
  obtain ⟨p', leftover⟩ := (replaceable_pos_iff wf listed).mp needed
  obtain ⟨before, after, split⟩ : ∃ before after, Rule.all = before ++ b.kind.rule :: after :=
    List.append_of_mem (by cases b.kind <;> decide)
  have leads : Leads read {} path source before
      (settingOf {} (detectPreset path source .default) source tree) ⟨source, tree, []⟩ :=
    ⟨notTest, tree, reads, rfl, foldlM_still fun rule _ => still rule⟩
  have reached := leads.reached split
  have apart : LeavesApart (settingOf {} (detectPreset path source .default) source tree)
      ⟨source, tree, []⟩ b.kind.rule := fun moves => absurd moves (rule_movesImports b.kind)
  -- the rule gives the text that it was given, so a reference there was one that it has left alone
  obtain ⟨p, leftover, untouched⟩ :=
    reached.replaceable_before law apart (still b.kind.rule) reads leftover
  exact untouched rfl (leftover.replaced wf (Bindings.collect_distinct tree) listed needed)

section

variable {ch : Changes} {text : Text}

mutual

/-- Whether two trees are alike but for where they stand in their texts. -/
def mirrors (source text : Text) : Node → Node → Bool
  | .mk k r a b cs, n' =>
    n'.kind == k && n'.role == r &&
      (n'.text text == Node.text source (.mk k r a b cs) || !k.isWord && !isLiteral (.mk k r a b cs)) &&
      mirrorsIn source text cs n'.children

def mirrorsIn (source text : Text) : List Node → List Node → Bool
  | [], [] => true
  | n :: ns, m :: ms => mirrors source text n m && mirrorsIn source text ns ms
  | _, _ => false

end

theorem mirrorsIn_self {ns : List Node} (each : ∀ n ∈ ns, mirrors source source n n) :
    mirrorsIn source source ns ns := by
  induction ns with
  | nil => rfl
  | cons n ns rest =>
      rw [mirrorsIn, each n (by simp), rest fun m listed => each m (by simp [listed])]
      rfl

theorem mirrors_self (n : Node) : mirrors source source n n := by
  induction n using Node.byChildren with
  | step n below =>
      cases n with
      | mk k r a b cs =>
          have parts : mirrorsIn source source cs cs := mirrorsIn_self below
          simp [mirrors, Node.kind, Node.role, Node.children, parts]

/-- The rule makes no change at a node. -/
def Untouched (ch : Changes) (n : Node) : Prop :=
  (∀ k new, ¬ ch.swap k n new) ∧ (∀ new, ¬ ch.respell n new) ∧ ∀ name, ¬ ch.declare n name

theorem keptIn_mirrored {k : Kind} {ns ms : List Node}
    (each : ∀ n ∈ ns, ∀ m, mirrors source text n m → Kept ch source text k n m)
    (alike : mirrorsIn source text ns ms) : KeptIn ch source text k ns ms := by
  induction ns generalizing ms with
  | nil =>
      cases ms with
      | nil => exact fun m inside => absurd inside List.not_mem_nil
      | cons => cases alike
  | cons n ns rest =>
      cases ms with
      | nil => cases alike
      | cons m ms =>
          rw [mirrorsIn, Bool.and_eq_true] at alike
          refine Or.inr ⟨[], m, ms, rfl, by simp, each n (by simp) m alike.1, ?_⟩
          exact rest (fun n listed => each n (by simp [listed])) alike.2

/-- A tree that is like another stands for it where nothing is changed. -/
theorem kept_mirrored (ch : Changes) (n : Node) : ∀ (above : List Node) {k : Kind} {n' : Node},
    (∀ p ∈ n.places (fun _ => true) above, Untouched ch p.node) → mirrors source text n n' →
      Kept ch source text k n n' := by
  induction n using Node.byChildren with
  | step n below =>
      intro above k n' untouched alike
      cases n with
      | mk kind r a b cs =>
          obtain ⟨fixed, same, undeclared⟩ := untouched _ (Node.mem_places.mpr (Or.inl rfl))
          simp only [mirrors, Bool.and_eq_true, Bool.or_eq_true, Bool.not_eq_true', beq_iff_eq] at alike
          obtain ⟨⟨⟨kind', role⟩, spelled⟩, parts⟩ := alike
          refine ⟨role, Or.inr ⟨fixed k, ?_, keptIn_mirrored ?_ parts⟩⟩
          · refine ⟨kind', fun word => ?_, fun _ new other => absurd other (same new),
              fun literal _ _ => ?_, fun name other => absurd other (undeclared name)⟩
            · exact spelled.resolve_right fun none => by simp [Node.kind, none.1] at word
            · exact spelled.resolve_right fun none => by simp [none.2] at literal
          · intro c isChild m alike
            refine below c isChild (.mk kind r a b cs :: above) (fun p lower => ?_) alike
            exact untouched p (Node.mem_places.mpr (Or.inr ⟨rfl, c, isChild, lower⟩))

/-- A node that is no word and no literal stands for one whose parts its parts stand for. -/
theorem kept_inner {k : Kind} {n n' : Node} (untouched : Untouched ch n) (role : n'.role = n.role)
    (kind : n'.kind = n.kind) (noWord : ¬ n.kind.isWord) (noLiteral : ¬ isLiteral n)
    (children : KeptIn ch source text n.kind n.children n'.children) : Kept ch source text k n n' := by
  cases n
  exact ⟨role, Or.inr ⟨untouched.1 k, ⟨kind, fun word => absurd word noWord,
    fun literal => absurd literal noLiteral, fun literal => absurd literal noLiteral,
    fun name other => absurd other (untouched.2.2 name)⟩, children⟩⟩

theorem keptIn_cons {k : Kind} {n m : Node} {ns ms : List Node} (first : Kept ch source text k n m)
    (rest : KeptIn ch source text k ns ms) : KeptIn ch source text k (n :: ns) (m :: ms) :=
  Or.inr ⟨[], m, ms, rfl, by simp, first, rest⟩

end

/-- Reads the given texts and nothing else. -/
def readerOf (run : List (Text × Node)) : Reader := fun _ t =>
  match run.find? (·.1 == t) with
  | some e => .ok e.2
  | none => .error ⟨0, none⟩

theorem readerOf_mem {run : List (Text × Node)} {markup : Bool} {t : Text}
    (reads : readerOf run markup t = .ok tree) : (t, tree) ∈ run := by
  unfold readerOf at reads
  split at reads
  · rename_i e found
    cases reads
    have same := @List.find?_some _ (fun e : Text × Node => e.1 == t) e run found
    rw [← eq_of_beq same]
    exact List.mem_of_find?_eq_some found
  · cases reads

/-- Trees without functions, and without declarations of a name, are regular if their members are. -/
theorem regular_of_simple {run : List (Text × Node)} (wellFormed : ∀ e ∈ run, e.2.WellFormed)
    (root : ∀ e ∈ run, e.2.kind = .program)
    (property : ∀ e ∈ run, ∀ p ∈ e.2.allPlaces, p.node.kind = .memberExpression →
      (p.node.child? .property).all (·.kind.isWord))
    (others : ∀ e ∈ run, ∀ p ∈ e.2.allPlaces,
      hasWordName p.node.kind = false ∧ p.node.kind.isFunction = false) :
    ∀ e ∈ run, Regular e.2 := by
  intro e listed
  refine ⟨wellFormed e listed, root e listed, fun p inside member c found => ?_,
    fun p inside named => ?_, fun p inside isFunction => ?_⟩
  · have word := property e listed p inside member
    rw [Option.mem_def.mp found] at word
    exact word
  · rw [(others e listed p inside).1] at named
    cases named
  · rw [(others e listed p inside).2] at isFunction
    cases isFunction

/-- The module of one call and what becomes of it, with their trees. -/
def oneRun : List (Text × Node) :=
  [(oneCall, oneCallTree), (factoryImported, factoryImportedTree), (callMigrated, callMigratedTree)]

/-- Reads these and nothing else. -/
def oneRunReader : Reader := fun _ t =>
  match oneRun.find? (·.1 == t) with
  | some e => .ok e.2
  | none => .error ⟨0, none⟩

theorem oneRunReader_mem {markup : Bool} {t : Text} (reads : oneRunReader markup t = .ok tree) :
    (t, tree) ∈ oneRun :=
  @readerOf_mem tree oneRun markup t reads

theorem oneRun_regular : ∀ e ∈ oneRun, Regular e.2 :=
  regular_of_simple (by decide) (by decide) (by decide) (by decide)

/-- Whether a rule does nothing to a module of the run, or gives none of its modules, or is the step of
the run that leads to the next one. -/
def isForeseen (preset : Preset) (start before : Text × Node) (rule : Rule) : Bool :=
  let s := settingOf {} preset start.1 start.2
  let edits := rule.edits s before.2 before.1
  let made := (Edit.apply before.1 edits).toOption
  edits.isEmpty && (redirected s before.2 before.1).declared.isEmpty ||
    oneRun.all (fun e => made != some e.1) ||
    rule == .defaultImport && before.1 == oneCall && made == some factoryImported ||
    rule == .callSites && preset == .default && start.1 == oneCall && before.1 == factoryImported &&
      made == some callMigrated

theorem oneRun_foreseen : ∀ start ∈ oneRun, ∀ before ∈ oneRun, ∀ rule ∈ Rule.all,
    ∀ preset ∈ Preset.all, isForeseen preset start before rule := by
  decide +kernel

theorem oneRun_tree {e : Text × Node} (listed : e ∈ oneRun) :
    (e.1 = oneCall → e.2 = oneCallTree) ∧ (e.1 = factoryImported → e.2 = factoryImportedTree) ∧
      (e.1 = callMigrated → e.2 = callMigratedTree) := by
  revert e
  decide +kernel

/-- What a rule does to a module of the run that the reader can read again. -/
theorem oneRun_step {rule : Rule} {d : Draft} {text : Text} {tree : Node}
    (reached : Reached oneRunReader {} path source rule s d) (made : rewritten s d rule = .ok text)
    (reads : oneRunReader (hasMarkup path) text = .ok tree) :
    (rule.edits s d.tree d.text = [] ∧ (redirected s d.tree d.text).declared = []) ∨
      (rule = .defaultImport ∧ d.text = oneCall ∧ d.tree = oneCallTree ∧ text = factoryImported ∧
        tree = factoryImportedTree) ∨
      (rule = .callSites ∧ s = settingOf {} .default oneCall oneCallTree ∧ d.text = factoryImported ∧
        d.tree = factoryImportedTree ∧ text = callMigrated ∧ tree = callMigratedTree) := by
  have before := oneRunReader_mem reached.reads
  have after := oneRunReader_mem reads
  obtain ⟨tree₀, _, _, reads₀, rfl, _⟩ := reached.run
  have start := oneRunReader_mem reads₀
  have foreseen := oneRun_foreseen _ start _ before rule (by cases rule <;> decide)
    (detectPreset path source .default) (by cases detectPreset path source .default <;> decide)
  unfold rewritten at made
  simp only [isForeseen, made, Except.toOption, Bool.or_eq_true, Bool.and_eq_true, beq_iff_eq,
    List.isEmpty_iff, Option.some.injEq, List.all_eq_true, bne_iff_ne] at foreseen
  rcases foreseen with ((nothing | other) | ⟨⟨isRule, here⟩, there⟩) |
    ⟨⟨⟨⟨isRule, preset⟩, first⟩, here⟩, there⟩
  · exact Or.inl nothing
  · exact absurd rfl (other _ after)
  · exact Or.inr (Or.inl ⟨isRule, here, (oneRun_tree before).1 here, there,
      (oneRun_tree after).2.1 there⟩)
  · refine Or.inr (Or.inr ⟨isRule, ?_, here, (oneRun_tree before).2.1 here, there,
      (oneRun_tree after).2.2 there⟩)
    have tree_same : tree₀ = oneCallTree := (oneRun_tree start).1 first
    have source_same : source = oneCall := first
    show settingOf {} (detectPreset path source .default) source tree₀ = _
    rw [preset, tree_same, source_same]

/-- A rule without edits and declared clients changes nothing. -/
theorem untouched_of_none {rule : Rule} {tree : Node} (noEdits : rule.edits s tree source = [])
    (noClients : (redirected s tree source).declared = []) (n : Node) :
    Untouched (.of s tree source rule) n := by
  have gone {e : Edit} (made : e ∈ rule.edits s tree source) : False := by
    rw [noEdits] at made
    cases made
  cases rule with
  | callSites =>
      refine ⟨fun _ _ swap => gone swap.2, fun _ => id, fun name declares => ?_⟩
      have logged : (n, name) ∈ (redirected s tree source).declared := declares
      rw [noClients] at logged
      cases logged
  | authAccessor => exact ⟨fun _ _ swap => gone swap.2, fun _ => id, fun _ => id⟩
  | versionPrefix => exact ⟨fun _ _ => id, fun _ => gone, fun _ => id⟩
  | _ => exact ⟨fun _ _ => id, fun _ => id, fun _ => id⟩

theorem keptIn_nil {ch : Changes} {text : Text} {k : Kind} : KeptIn ch source text k [] [] :=
  fun _ inside => absurd inside List.not_mem_nil

theorem factoryImported_kept :
    Kept .none oneCall factoryImported .program oneCallTree factoryImportedTree := by
  have untouched (n : Node) : Untouched .none n := ⟨fun _ _ => id, fun _ => id, fun _ => id⟩
  refine kept_inner (untouched _) rfl rfl (by decide) (by decide) ?_
  refine Or.inl ⟨rfl, rfl, Or.inr ⟨[_], _, [], rfl, ?_, ?_, keptIn_nil⟩⟩
  · intro d listed
    cases List.mem_singleton.mp listed
    exact Or.inl ⟨rfl, rfl⟩
  · exact kept_mirrored _ _ [] (fun p _ => untouched p.node) (by decide)

/-- The changes of the rule for calls in the run of one call. -/
abbrev oneCallChanges : Changes :=
  .of (settingOf {} .default oneCall oneCallTree) factoryImportedTree factoryImported .callSites

theorem callMigrated_kept :
    Kept oneCallChanges factoryImported callMigrated .program factoryImportedTree callMigratedTree := by
  have noClients : (redirected (settingOf {} .default oneCall oneCallTree) factoryImportedTree
      factoryImported).declared = [] := by decide +kernel
  have untouched {n : Node} (other : n.kind ≠ .identifier) : Untouched oneCallChanges n := by
    refine ⟨fun _ _ swap => other swap.1.2.1, fun _ => id, fun name declares => ?_⟩
    have logged : (n, name) ∈ (redirected (settingOf {} .default oneCall oneCallTree)
      factoryImportedTree factoryImported).declared := declares
    rw [noClients] at logged
    cases logged
  have alike {k : Kind} {n n' : Node} (others : ∀ p ∈ n.places (fun _ => true) [], p.node.kind ≠ .identifier)
      (same : mirrors factoryImported callMigrated n n') :
      Kept oneCallChanges factoryImported callMigrated k n n' :=
    kept_mirrored _ n [] (fun p inside => untouched (others p inside)) same
  refine kept_inner (untouched (by decide)) rfl rfl (by decide) (by decide) ?_
  refine Or.inl ⟨rfl, rfl, Or.inr ⟨[_], _, [], rfl, ?_, ?_, keptIn_nil⟩⟩
  · intro d listed
    cases List.mem_singleton.mp listed
    exact Or.inl ⟨rfl, rfl⟩
  · refine kept_inner (untouched (by decide)) rfl rfl (by decide) (by decide) (keptIn_cons ?_ keptIn_nil)
    refine kept_inner (untouched (by decide)) rfl rfl (by decide) (by decide)
      (keptIn_cons ?_ (keptIn_cons (alike (by decide) (by decide)) keptIn_nil))
    refine kept_inner (untouched (by decide)) rfl rfl (by decide) (by decide)
      (keptIn_cons ?_ (keptIn_cons (alike (by decide) (by decide))
        (keptIn_cons (alike (by decide) (by decide)) keptIn_nil)))
    refine ⟨rfl, Or.inl ⟨"createPresetApiClient('default')".toList, ⟨⟨rfl, rfl, rfl⟩, ?_⟩, .call .mk⟩⟩
    decide

theorem oneRunReader_faithful : Faithful oneRunReader where
  regular := fun reads => oneRun_regular _ (oneRunReader_mem reads)
  code := by
    intro path source rule s d text tree reached _ made reads
    rcases oneRun_step reached made reads with
      ⟨noEdits, noClients⟩ | ⟨rfl, here, before, rfl, rfl⟩ | ⟨rfl, rfl, here, before, rfl, rfl⟩
    · rw [rewritten_of_no_edits noEdits] at made
      cases made
      rw [reached.reads] at reads
      cases reads
      exact kept_mirrored _ _ [] (fun p _ => untouched_of_none noEdits noClients p.node)
        (mirrors_self _)
    · rw [here, before]
      exact factoryImported_kept
    · rw [here, before]
      exact callMigrated_kept
  imports := by
    intro path source rule s d text tree reached late _ made reads n' isImport
    rcases oneRun_step reached made reads with ⟨noEdits, _⟩ | ⟨rfl, _⟩ | ⟨rfl, _⟩
    · rw [rewritten_of_no_edits noEdits] at made
      cases made
      rw [reached.reads] at reads
      cases reads
      refine ⟨n', isImport, ?_, ⟨rfl, rfl, rfl⟩, fun spec listed => ⟨spec, Or.inl listed, rfl, rfl⟩⟩
      rw [noEdits]
      exact List.not_mem_nil
    · rcases late with other | other <;> cases other
    · rcases late with other | other <;> cases other

theorem oneCall_ran : migrateWith oneRunReader {} ⟨"a.ts"⟩ oneCall =
    .ok ⟨true, callMigrated, [.defaultImport, .callSites], .default, .apiModule⟩ := by
  have made : (migrateWith oneRunReader {} ⟨"a.ts"⟩ oneCall).toOption =
      some ⟨true, callMigrated, [.defaultImport, .callSites], .default, .apiModule⟩ := by
    decide +kernel
  cases ran : migrateWith oneRunReader {} ⟨"a.ts"⟩ oneCall with
  | error e => simp [ran, Except.toOption] at made
  | ok o => simpa [ran, Except.toOption] using made

/-- The imports stand in front of all that is called. -/
theorem oneCall_apart (rule : Rule) (s : Setting) (d : Draft)
    (reached : Reached oneRunReader {} ⟨"a.ts"⟩ oneCall rule s d) : LeavesApart s d rule := by
  rintro _ e _ ⟨statement, isImport, ⟨⟨a, isChild, _, inFront, _⟩, _⟩, _⟩
  have importsFirst : ∀ e ∈ oneRun, ∀ statement ∈ importStatements e.2, ∀ a ∈ e.2.children,
      ¬ a.stop ≤ statement.start := by decide
  exact importsFirst _ (oneRunReader_mem reached.reads) statement isImport a isChild inFront

def movedClient : Text :=
  ("import \x7b ApiError \x7d from '@/lib/api';\n" ++
    "import \x7b apiClient \x7d from '@/lib/api/error';\napiClient.get('/x');\n").toList

/-- Whether a second run changes the output of the first. -/
def changesAgain : Bool :=
  match migrate {} ⟨"a.ts"⟩ movedClient with
  | .ok o => match migrate {} ⟨"a.ts"⟩ o.source with
    | .ok o' => o'.changed
    | .error _ => false
  | .error _ => false

end ClientMigration.Codemod
