/-
# Proofs.Codemod.Verified -- what a file without issues has left

A verification and the counter of references walk over the same tree and stop at
different nodes. The verification does not look into literals, and a template
may hold code: a bare call of the accessor in there is no issue, but it is a
reference that a rule replaces. Everywhere else the two agree
(`replaceable_below_literal`).

The first four rules make an edit exactly if some reference is replaceable
(`legacyRules_still_iff`). So a file without issues is done with them if no such
call stands in a literal, and only then (`verified_still_iff`).
-/
import ClientMigration.Codemod.Verification
import ClientMigration.Proofs.Codemod.Settled

namespace ClientMigration.Codemod

set_option autoImplicit false

open Script

variable {read : Reader} {config : Config} {path : Path} {source : Text} {tree : Node}
  {report : VerificationReport} {preset : Preset} {b : Binding} {p : Place}

/-! ## The rules for legacy names -/

/-- The rules that replace references to legacy names and take their imports away. -/
def legacyRules : List Rule := [.defaultImport, .namedImport, .callSites, .authAccessor]

theorem legacyRules_still {s : Setting} (none : ∀ b ∈ s.bindings.list, b.replaceable = 0)
    {rule : Rule} (legacy : rule ∈ legacyRules) : rule.edits s tree source = [] := by
  cases rule with
  | defaultImport => exact defaultImportEdits_nil none
  | namedImport => exact namedImportEdits_nil none
  | callSites => exact callSiteEdits_nil none
  | authAccessor => exact accessorEdits_nil none
  | versionPrefix => exact absurd legacy (by decide)
  | errorImport => exact absurd legacy (by decide)

theorem Replaced.edited {s : Setting} {kind : BindingKind} (replaced : Replaced s source tree p kind) :
    kind.rule.edits s tree source ≠ [] := by
  cases kind with
  | client =>
      obtain ⟨text, made⟩ := replaced
      exact List.ne_nil_of_mem made
  | accessor =>
      obtain ⟨call, text, _, _, made⟩ := replaced
      exact List.ne_nil_of_mem made

theorem kindRule_legacy (kind : BindingKind) : kind.rule ∈ legacyRules := by
  cases kind <;> decide

/-- The rule for a kind makes no edit exactly if no reference to a binding of the kind is replaceable. -/
theorem kindEdits_nil_iff (kind : BindingKind) :
    kind.rule.edits (settingOf config preset source tree) tree source = [] ↔
      ∀ b ∈ (Bindings.collect config source tree).list, b.kind = kind → b.replaceable = 0 := by
  constructor
  · rintro still b listed rfl
    rw [(Bindings.mem_collect listed).2, List.length_eq_zero_iff, List.eq_nil_iff_forall_not_mem]
    intro p inside
    have replaced : Replaced (settingOf config preset source tree) source tree p b.kind :=
      counted_edited listed inside
    exact replaced.edited still
  · intro none
    refine kindEdits_nil (List.any_eq_false.mpr fun b listed => ?_)
    simp only [Bool.and_eq_true, beq_iff_eq, decide_eq_true_eq, not_and]
    intro isKind
    have unused := none b listed isKind
    omega

/-- The rules for legacy names make no edit exactly if no reference is replaceable. -/
theorem legacyRules_still_iff :
    (∀ rule ∈ legacyRules, rule.edits (settingOf config preset source tree) tree source = []) ↔
      ∀ b ∈ (Bindings.collect config source tree).list, b.replaceable = 0 := by
  constructor
  · intro still b listed
    exact (kindEdits_nil_iff b.kind).mp (still b.kind.rule (kindRule_legacy b.kind)) b listed rfl
  · intro none rule legacy
    exact legacyRules_still none legacy

/-! ## Verifications without issues -/

/-- A file is called migrated only without issues. -/
theorem derive_migrated {hasIssues hasSuccesses mentionsApi : Bool}
    (migrated : Status.derive hasIssues hasSuccesses mentionsApi = .migrated) : hasIssues = false := by
  revert migrated
  cases hasIssues <;> cases hasSuccesses <;> cases mentionsApi <;> decide

theorem verifyWith_migrated (verified : verifyWith read config path source = .ok report)
    (migrated : report.status = .migrated) : report.issues = [] := by
  unfold verifyWith at verified
  cases parsed : treeOf read path source with
  | error e =>
      rw [parsed] at verified
      cases verified
  | ok tree =>
      rw [parsed] at verified
      cases verified
      have none := derive_migrated migrated
      rw [Bool.not_eq_false', List.isEmpty_iff] at none
      exact none

/-- Without issues there is no legacy client, and no call of the accessor outside literals. -/
theorem verifyWith_clean (reads : read (hasMarkup path) source = .ok tree)
    (verified : verifyWith read config path source = .ok report) (clean : report.issues = []) :
    (∀ b ∈ (Bindings.collect config source tree).list, b.kind = .accessor) ∧
      ∀ p ∈ findingPlaces tree,
        ¬ callsAccessor config (.collect config source tree) source p.node := by
  unfold verifyWith at verified
  rw [treeOf_ok reads] at verified
  cases verified
  simp only [List.append_eq_nil_iff] at clean
  obtain ⟨⟨⟨noCalls, noClients⟩, _⟩, _⟩ := clean
  constructor
  · intro b listed
    cases kind : b.kind with
    | accessor => rfl
    | client =>
        have some : ((Bindings.collect config source tree).list.any (·.kind == .client)) = true :=
          List.any_eq_true.mpr ⟨b, listed, by rw [kind]; rfl⟩
        rw [if_pos some] at noClients
        cases noClients
  · intro p visited calls
    have counted := List.length_pos_of_mem
      (List.mem_filter.mpr ⟨visited, calls⟩ :
        p ∈ (findingPlaces tree).filter (callsAccessor config (.collect config source tree) source ·.node))
    rw [if_pos counted] at noCalls
    cases noCalls

/-! ## The two walks -/

theorem entersForFindings_iff (a : Node) :
    entersForFindings a ↔ a.kind ≠ .importStatement ∧ ¬ isLiteral a := by
  simp only [entersForFindings, isLiteral, Bool.not_eq_true', Bool.or_eq_false_iff,
    beq_eq_false_iff_ne, Bool.or_eq_true, beq_iff_eq, not_or, and_assoc, ne_eq]

/-- A bare call of an accessor outside literals is found by a verification. -/
theorem callsAccessor_found (wf : tree.WellFormed)
    (listed : b ∈ (Bindings.collect config source tree).list) (accessor : b.kind = .accessor)
    (inside : p ∈ counted config source tree b) (outside : ∀ a ∈ p.above, ¬ isLiteral a) :
    ∃ q ∈ findingPlaces tree, callsAccessor config (.collect config source tree) source q.node := by
  obtain ⟨referred, form⟩ := List.mem_filter.mp inside
  have use := (mem_references wf).mp referred
  have plain := counted_plain inside
  rw [accessor] at form
  simp only [BindingKind.replaces, Bool.and_eq_true] at form
  obtain ⟨call, up, args, above, isCall, plays, _⟩ := bareCall_cases form.2
  obtain ⟨call_in, isChild⟩ := Node.parent_mem_allPlaces use.inTree above
  have function : call.child? .function = some p.node :=
    plays_child? (wf.place call_in).2.1 isChild (eq_of_beq plays)
  refine ⟨⟨call, up⟩, Node.mem_places_iff_enters.mpr ⟨call_in, fun a passed => ?_⟩, ?_⟩
  · have passed' : a ∈ p.above := by
      rw [above]
      exact List.mem_cons_of_mem call passed
    exact (entersForFindings_iff a).mpr ⟨use.outside a passed', outside a passed'⟩
  · have isKind : (Bindings.collect config source tree).isKind .accessor (p.node.name source) := by
      rw [use.same, (Bindings.collect_distinct tree).isKind listed .accessor]
      exact accessor
    simp [callsAccessor, isCall, function, plain, isKind]

/-- A file without issues has no legacy client, and each reference that a rule would replace stands in
a literal. -/
theorem replaceable_below_literal (wf : tree.WellFormed)
    (reads : read (hasMarkup path) source = .ok tree)
    (verified : verifyWith read config path source = .ok report) (clean : report.issues = [])
    (listed : b ∈ (Bindings.collect config source tree).list) :
    b.kind = .accessor ∧ ∀ p ∈ counted config source tree b, ∃ a ∈ p.above, isLiteral a := by
  obtain ⟨accessors, noCalls⟩ := verifyWith_clean reads verified clean
  refine ⟨accessors b listed, fun p inside => ?_⟩
  by_contra outside
  push Not at outside
  obtain ⟨q, visited, calls⟩ := callsAccessor_found wf listed (accessors b listed) inside outside
  exact noCalls q visited calls

/-- A module that calls the accessor in a template. -/
def templateCall : Text :=
  ("import \x7b createPresetApiClient, getAuthClient \x7d from '@/lib/api';\n" ++
    "export const s = `$\x7bgetAuthClient()\x7d`;\n").toList

/-- Whether the module is called migrated with its accessor bound and called once. -/
def certifiesTemplateCall : Bool :=
  match Script.parse (hasMarkup ⟨"a.ts"⟩) templateCall, verify {} ⟨"a.ts"⟩ templateCall with
  | .ok tree, .ok report => decide (tree.WellFormed ∧ report.status = .migrated ∧
      ⟨"getAuthClient", .accessor, 1, 1⟩ ∈ (Bindings.collect {} templateCall tree).list)
  | _, _ => false

theorem templateCall_verified : ∃ tree report,
    Script.parse (hasMarkup ⟨"a.ts"⟩) templateCall = .ok tree ∧
      verify {} ⟨"a.ts"⟩ templateCall = .ok report ∧ tree.WellFormed ∧ report.status = .migrated ∧
      ⟨"getAuthClient", .accessor, 1, 1⟩ ∈ (Bindings.collect {} templateCall tree).list := by
  have checked : certifiesTemplateCall = true := by decide +kernel
  unfold certifiesTemplateCall at checked
  split at checked
  · rename_i tree report reads verified
    exact ⟨tree, report, reads, verified, of_decide_eq_true checked⟩
  · cases checked

end ClientMigration.Codemod
