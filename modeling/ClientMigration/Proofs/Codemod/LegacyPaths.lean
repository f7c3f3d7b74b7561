/-
# Proofs.Codemod.LegacyPaths -- the paths of calls that stay with the legacy client

The rules for calls leave the literal of a kept call as it is
(`KeptCall.text_alike`). The rule for versions does not ask what a literal is
given to: if the module imports the factory it takes the versions off every
literal that it comes to (`KeptCall.paths`), also off the path of a request that
is still made with the old client.

A run carries the literals of kept calls to its output, one for one and in their
order (`CarriesAll.step`, `CarriesAll.run`). So `legacy_literals_spelled` says
how each is spelled in the end. In `partlyMigrated` one has lost its version.
-/
import ClientMigration.Proofs.Codemod.KeptCalls
import ClientMigration.Proofs.Codemod.SecondRun

namespace ClientMigration.Codemod

set_option autoImplicit false

open Script

variable {read : Reader} {path : Path} {source text : Text} {tree tree' : Node} {s : Setting}
  {d : Draft} {rule : Rule} {call q p : Place} {name : String}

/-! ## The literal -/

/-- A literal that the rule does not respell is as it was. -/
theorem Paired.text_alike {p' : Place} (paired : Paired (.verbatim s d rule) d.text text p p')
    (literal : isLiteral p.node)
    (noRespell : ∀ new, ¬ (Changes.of s d.tree d.text rule).respell p.node new)
    (clear : rule = .callSites ∨ rule = .authAccessor →
      ∀ e ∈ rule.edits s d.tree d.text, e.stop ≤ p.node.start ∨ p.node.stop ≤ e.start) :
    p'.node.text text = p.node.text d.text := by
  obtain ⟨_, _, same⟩ := paired.node
  by_cases untouched :
      ∀ e ∈ rule.edits s d.tree d.text, e.stop ≤ p.node.start ∨ p.node.stop ≤ e.start
  · exact same.respelled literal _ (Or.inr ⟨untouched, rfl⟩)
  · refine same.literal literal ?_ fun k m new swap => untouched (clear ?_)
    · rintro new (respell | ⟨untouched', _⟩)
      · exact noRespell new respell
      · exact untouched untouched'
    · have swap : (Changes.of s d.tree d.text rule).swap k m new := swap
      cases rule with
      | callSites => exact Or.inl rfl
      | authAccessor => exact Or.inr rfl
      | _ => exact swap.elim

theorem KeptCall.text_alike {p' : Place} (kept : KeptCall s d.text d.tree name call q p)
    (wf : d.tree.WellFormed) (other : rule ≠ .versionPrefix)
    (paired : Paired (.verbatim s d rule) d.text text p p') :
    p'.node.text text = p.node.text d.text := by
  refine paired.text_alike kept.literal (fun new respell => ?_) (kept.untouched wf)
  cases rule with
  | versionPrefix => exact other rfl
  | _ => exact respell

/-- A literal, with its quotes, without the versions at its head. -/
def withoutVersions (raw : Text) : Text :=
  match raw.head? with
  | none => raw
  | some quote =>
    if raw.bytes < 2 || raw.getLast? != some quote then raw
    else
      match stripVersions? ((raw.drop 1).dropLast) with
      | none => raw
      | some path => quote :: path ++ [quote]

theorem literalEdit?_withoutVersions (source : Text) (n : Node) :
    withoutVersions (n.text source) = ((literalEdit? source n).map Edit.text).getD (n.text source) := by
  unfold withoutVersions literalEdit?
  simp only
  cases (n.text source).head? with
  | none => rfl
  | some quote =>
      simp only
      by_cases closed : ((n.text source).bytes < 2 || (n.text source).getLast? != some quote) = true
      · rw [if_pos closed, if_pos closed]
        rfl
      · rw [if_neg closed, if_neg closed]
        cases stripVersions? (((n.text source).drop 1).dropLast) with
        | none => rfl
        | some path => rfl

/-- The bytes of a literal belong to no other literal. -/
theorem Verbatim.literal_unique {markup : Bool} (law : Verbatim read)
    (reads : read markup source = .ok tree) {p r : Place} (p_in : p ∈ tree.allPlaces)
    (r_in : r ∈ tree.allPlaces) (p_literal : isLiteral p.node) (r_literal : isLiteral r.node)
    (start : p.node.start = r.node.start) (stop : p.node.stop = r.node.stop) : p = r := by
  have wf := (law.regular reads).wellFormed
  have apart {a b : Place} (a_in : a ∈ tree.allPlaces) (b_in : b ∈ tree.allPlaces)
      (literal : isLiteral a.node) (under : b.Under a) (start : a.node.start = b.node.start)
      (stop : a.node.stop = b.node.stop) : a = b := by
    obtain ⟨_, inside⟩ := Node.under_mem_places b_in under
    rcases Node.mem_places.mp inside with same | ⟨_, c, isChild, lower⟩
    · exact same.symm
    · have a_wf := (wf.place a_in).2.1
      have c_lies := a_wf.child isChild
      have b_lies := c_lies.2.1.place lower
      exact absurd ⟨by omega, by omega⟩ ((law.quoted reads a a_in literal).2 c isChild)
  have long := (law.quoted reads p p_in p_literal).1
  rcases wf.places_under p_in r_in with same | left | right | below | under
  · exact same
  · omega
  · omega
  · exact apart p_in r_in p_literal below start stop
  · exact (apart r_in p_in r_literal under start.symm stop.symm).symm

/-- The rule for versions respells the literal if it is in scope and comes to the literal. -/
theorem KeptCall.respell_iff {markup : Bool} (kept : KeptCall s source tree name call q p)
    (law : Verbatim read) (reads : read markup source = .ok tree) (new : Text) :
    ⟨p.node.start, p.node.stop, new⟩ ∈ pathEdits s.config tree source ↔
      inPathScope s.config source tree ∧ (∀ a ∈ p.above, entersForPaths a) ∧
        literalEdit? source p.node = some ⟨p.node.start, p.node.stop, new⟩ := by
  have p_in := kept.argument.mem
  rw [mem_pathEdits]
  refine and_congr_right fun _ => ?_
  constructor
  · rintro ⟨r, form, edit⟩
    obtain ⟨r_in, enters⟩ := Node.mem_places_iff_enters.mp form.visited
    have bytes := literalEdit?_bytes edit
    injection bytes with start stop
    have same : p = r := law.literal_unique reads p_in r_in kept.literal form.literal start stop
    rw [same]
    exact ⟨enters, by rw [edit, start, stop]⟩
  · rintro ⟨enters, edit⟩
    exact ⟨p, ⟨Node.mem_places_iff_enters.mpr ⟨p_in, enters⟩, kept.literal,
      by simp [kept.argument.unnamed]⟩, edit⟩

/-- What the rule for versions makes of the literal. -/
theorem KeptCall.paths {markup : Bool} {p' : Place} (kept : KeptCall s d.text d.tree name call q p)
    (law : Verbatim read) (reads : read markup d.text = .ok d.tree)
    (paired : Paired (.verbatim s d .versionPrefix) d.text text p p') :
    (inPathScope s.config d.text d.tree ∧ (∀ a ∈ p.above, entersForPaths a) →
      p'.node.text text = withoutVersions (p.node.text d.text)) ∧
    (¬ (inPathScope s.config d.text d.tree ∧ ∀ a ∈ p.above, entersForPaths a) →
      p'.node.text text = p.node.text d.text) := by
  have asItWas (none : ∀ new, ⟨p.node.start, p.node.stop, new⟩ ∉ pathEdits s.config d.tree d.text) :
      p'.node.text text = p.node.text d.text :=
    paired.text_alike kept.literal none fun forCalls => by simp at forCalls
  constructor
  · rintro ⟨scope, enters⟩
    rw [literalEdit?_withoutVersions]
    cases edit : literalEdit? d.text p.node with
    | none =>
        refine asItWas fun new made => ?_
        obtain ⟨_, _, made⟩ := (kept.respell_iff law reads new).mp made
        rw [edit] at made
        cases made
    | some e =>
        have bytes := literalEdit?_bytes edit
        have made := (kept.respell_iff law reads e.text).mpr ⟨scope, enters, by rw [edit, ← bytes]⟩
        obtain ⟨_, _, same⟩ := paired.node
        exact same.respelled kept.literal _ (Or.inl made)
  · intro unseen
    refine asItWas fun new made => ?_
    obtain ⟨scope, enters, _⟩ := (kept.respell_iff law reads new).mp made
    exact unseen ⟨scope, enters⟩

/-! ## A whole run -/

/-- A literal of a call through the name that no rule replaces. -/
def IsKept (s : Setting) (source : Text) (tree : Node) (name : String) (p : Place) : Prop :=
  ∃ call q, KeptCall s source tree name call q p

/-- A place of a draft that a literal of a kept call has come to, spelled in some way. -/
structure Carries (s : Setting) (source : Text) (tree : Node) (spelling : Place → Text → Prop)
    (d : Draft) (p p' : Place) : Prop where
  kept : ∃ name, IsKept s d.text d.tree name p'
  calls : ∀ name, IsKept s source tree name p → IsKept s d.text d.tree name p'
  kind : p'.node.kind = p.node.kind
  above : p'.above.map Node.kind = p.above.map Node.kind
  spelled : spelling p (p'.node.text d.text)

/-- The places of a draft that literals of kept calls have come to, in the order of the literals. -/
def CarriesAll (s : Setting) (source : Text) (tree : Node) (ps : List Place)
    (spelling : Place → Text → Prop) (d : Draft) : Prop :=
  ∃ ps', ps'.Sublist d.tree.allPlaces ∧ List.Forall₂ (Carries s source tree spelling d) ps ps'

theorem forall₂_comp {α β γ : Type} {R : α → β → Prop} {S : β → γ → Prop} {T : α → γ → Prop}
    (comp : ∀ a b c, R a b → S b c → T a c) {as : List α} {bs : List β} {cs : List γ}
    (first : List.Forall₂ R as bs) (second : List.Forall₂ S bs cs) : List.Forall₂ T as cs := by
  induction first generalizing cs with
  | nil =>
      cases second
      exact .nil
  | cons here _ rest =>
      cases second with
      | cons there later => exact .cons (comp _ _ _ here there) (rest later)

/-- A rule carries the literals on, and spells each as it spells what is in their places. -/
theorem CarriesAll.step {ps : List Place} {spelling respelled : Place → Text → Prop} {d' : Draft}
    (law : Verbatim read) (all : CarriesAll s source tree ps spelling d)
    (reached : Reached read {} path text rule s d) (apart : LeavesApart s d rule)
    (made : rewritten s d rule = .ok d'.text) (reads : read (hasMarkup path) d'.text = .ok d'.tree)
    (spells : ∀ p q q', Carries s source tree spelling d p q →
      Paired (.verbatim s d rule) d.text d'.text q q' → respelled p (q'.node.text d'.text)) :
    CarriesAll s source tree ps respelled d' := by
  obtain ⟨qs, among, carried⟩ := all
  have regular := law.regular reached.reads
  have regular' := law.regular reads
  have stays : ∀ q ∈ qs, ∀ a ∈ q.node :: q.above, (Changes.verbatim s d rule).StaysPut a := by
    intro q listed
    obtain ⟨p, _, carries⟩ := forall₂_mem carried.flip listed
    obtain ⟨name, call, r, kept⟩ := carries.kept
    exact kept.literal_stays regular.wellFormed
  obtain ⟨qs', among', paired⟩ := Kept.sublist_forth (.verbatim s d rule) d.tree
    (law.code reached apart made reads) (fun m above => by cases above) .nil among stays
  refine ⟨qs', among', ?_⟩
  have paired_in : List.Forall₂ (fun q q' => q' ∈ d'.tree.allPlaces ∧
      Paired (.verbatim s d rule) d.text d'.text q q') qs qs' :=
    ((List.forall₂_and_left qs' qs).mpr ⟨fun q' listed => among'.subset listed, paired.flip⟩).flip
  refine forall₂_comp (fun p q q' carries ⟨q'_in, pair⟩ => ?_) carried paired_in
  have further (name : String) (kept : IsKept s d.text d.tree name q) :
      IsKept s d'.text d'.tree name q' := by
    obtain ⟨call, r, kept⟩ := kept
    exact kept.forth regular regular' q'_in pair
  obtain ⟨name, kept⟩ := carries.kept
  exact {
    kept := ⟨name, further name kept⟩
    calls := fun name kept => further name (carries.calls name kept)
    kind := pair.inner_kind.trans carries.kind
    above := pair.kinds.trans carries.above
    spelled := spells p q q' carries pair }

theorem CarriesAll.start {ps : List Place} (among : ps.Sublist tree.allPlaces)
    (kept : ∀ p ∈ ps, ∃ name, IsKept s source tree name p) :
    CarriesAll s source tree ps (fun p t => t = p.node.text source) ⟨source, tree, []⟩ :=
  ⟨ps, among, List.forall₂_same.mpr fun p listed => ⟨kept p listed, fun _ => id, rfl, rfl, rfl⟩⟩

/-- A rule that is not the one for versions spells the literals as they are spelled. -/
theorem CarriesAll.spelled_alike {ps : List Place} {spelling : Place → Text → Prop} {d' : Draft}
    (law : Verbatim read) (all : CarriesAll s source tree ps spelling d) (other : rule ≠ .versionPrefix)
    (reached : Reached read {} path text rule s d) (apart : LeavesApart s d rule)
    (made : rewritten s d rule = .ok d'.text) (reads : read (hasMarkup path) d'.text = .ok d'.tree) :
    CarriesAll s source tree ps spelling d' := by
  refine all.step law reached apart made reads fun p q q' carries paired => ?_
  obtain ⟨name, call, r, kept⟩ := carries.kept
  rw [kept.text_alike (law.regular reached.reads).wellFormed other paired]
  exact carries.spelled

theorem entersForPaths_of_kinds {up up' : List Node} (same : up'.map Node.kind = up.map Node.kind) :
    (∀ a ∈ up', entersForPaths a) ↔ ∀ a ∈ up, entersForPaths a := by
  constructor
  · intro enters a passed
    obtain ⟨a', passed', kind⟩ := mem_of_kinds same.symm passed
    rw [← entersForPaths_congr kind]
    exact enters a' passed'
  · intro enters a' passed'
    obtain ⟨a, passed, kind⟩ := mem_of_kinds same passed'
    rw [← entersForPaths_congr kind]
    exact enters a passed

/-- The rule for versions comes to a literal at the place: the module imports the factory when it is the
rule's turn, and no attribute of markup and no other literal is around the place. -/
def LosesVersions (read : Reader) (path : Path) (source : Text) (p : Place) : Prop :=
  (∃ s d, Reached read {} path source .versionPrefix s d ∧ importsFactory {} d.text d.tree) ∧
    ∀ a ∈ p.above, entersForPaths a

/-- How a literal is spelled in the end. -/
def SpelledAfter (read : Reader) (path : Path) (source : Text) (p : Place) (t : Text) : Prop :=
  (LosesVersions read path source p → t = withoutVersions (p.node.text source)) ∧
    (¬ LosesVersions read path source p → t = p.node.text source)

/-- The rule for versions takes them off the literals that it comes to. -/
theorem CarriesAll.versions {ps : List Place} {d' : Draft} (law : Verbatim read)
    (all : CarriesAll s source tree ps (fun p t => t = p.node.text source) d)
    (reached : Reached read {} path source .versionPrefix s d)
    (made : rewritten s d .versionPrefix = .ok d'.text)
    (reads : read (hasMarkup path) d'.text = .ok d'.tree) :
    CarriesAll s source tree ps (SpelledAfter read path source) d' := by
  have apart : LeavesApart s d .versionPrefix := fun moves => by cases moves
  refine all.step law reached apart made reads fun p q q' carries paired => ?_
  obtain ⟨name, call, r, kept⟩ := carries.kept
  have loses_iff : LosesVersions read path source p ↔
      inPathScope s.config d.text d.tree ∧ ∀ a ∈ q.above, entersForPaths a := by
    rw [LosesVersions, ← entersForPaths_of_kinds carries.above, reached.config_eq]
    refine and_congr_left' ⟨?_, fun imports => ⟨s, d, reached, imports⟩⟩
    rintro ⟨s', d₁, reached', imports⟩
    obtain ⟨rfl, rfl⟩ := reached.unique reached'
    exact imports
  obtain ⟨loses, keeps⟩ := kept.paths law reached.reads paired
  have before := carries.spelled
  constructor
  · intro here
    rw [loses (loses_iff.mp here), before]
  · intro here
    rw [keeps fun there => here (loses_iff.mpr there), before]

/-- A literal that is given to a call through a legacy client, where no rule replaces the call. -/
def IsLegacyLiteral (s : Setting) (source : Text) (tree : Node) (p : Place) : Prop :=
  ∃ b ∈ s.bindings.list, b.kind = .client ∧ ∃ call q, q.isShadowed source = false ∧
    KeptCall s source tree b.name call q p

/-- A place of another text where the literal is given to a call through the same client, which is still
imported. -/
def StaysLegacy (s : Setting) (source : Text) (tree : Node) (text : Text) (tree' : Node) (p p' : Place) :
    Prop :=
  ∃ b ∈ s.bindings.list, b.kind = .client ∧ b.isDroppable = false ∧
    IsKept s source tree b.name p ∧ IsKept s text tree' b.name p' ∧ p'.node.kind = p.node.kind

/-- A client that a call is made through is no binding that the rules for imports drop. -/
theorem IsLegacyLiteral.stays (wf : tree.WellFormed) {config : Config} {preset : Preset}
    (legacy : IsLegacyLiteral (settingOf config preset source tree) source tree p) :
    ∃ b ∈ (Bindings.collect config source tree).list, b.kind = .client ∧ b.isDroppable = false ∧
      IsKept (settingOf config preset source tree) source tree b.name p := by
  obtain ⟨b, listed, client, call, q, unshadowed, kept⟩ := legacy
  refine ⟨b, listed, client, Bool.eq_false_iff.mpr fun droppable => ?_, call, q, kept⟩
  have use : IsUse source tree b.name q :=
    ⟨kept.argument.name_mem, kept.outside, kept.spelled, kept.same, unshadowed⟩
  have counted := (List.mem_filter.mp (use_counted wf listed droppable use)).2
  rw [client] at counted
  exact kept.form counted

/-- A run carries the literals to its output. -/
theorem CarriesAll.run (law : Verbatim read) {o : Outcome}
    (ran : migrateWith read {} path source = .ok o)
    (apart : ∀ rule s d, Reached read {} path source rule s d → LeavesApart s d rule)
    (reads : read (hasMarkup path) source = .ok tree)
    (setting : s = settingOf {} (detectPreset path source .default) source tree) {ps : List Place}
    (start : CarriesAll s source tree ps (fun p t => t = p.node.text source) ⟨source, tree, []⟩) :
    ∃ d, d.text = o.source ∧ read (hasMarkup path) d.text = .ok d.tree ∧
      CarriesAll s source tree ps (SpelledAfter read path source) d := by
  cases test : isTestPath path with
  | true =>
      have output : source = o.source := by
        simp only [migrateWith, test, if_true, Except.ok.injEq] at ran
        rw [← ran]
      refine ⟨⟨source, tree, []⟩, output, reads, ?_⟩
      obtain ⟨ps', among, carried⟩ := start
      refine ⟨ps', among, carried.imp fun p p' carries => { carries with spelled := ?_ }⟩
      refine ⟨fun loses => ?_, fun _ => carries.spelled⟩
      obtain ⟨⟨s, d, reached, _⟩, _⟩ := loses
      exact absurd reached.notTest (by simp [test])
  | false =>
      obtain ⟨tree₀, d, reads₀, output, leads⟩ := migrateWith_ok test ran
      cases reads.symm.trans reads₀
      rw [← setting] at leads
      obtain ⟨tree₁, reads₁, _, ran⟩ := leads.run
      cases reads.symm.trans reads₁
      have split : Rule.all = [] ++ [Rule.defaultImport, .namedImport, .callSites, .authAccessor] ++
        [Rule.versionPrefix, .errorImport] := rfl
      have split' : Rule.all = [Rule.defaultImport, .namedImport, .callSites, .authAccessor] ++
        [Rule.versionPrefix] ++ [Rule.errorImport] ++ [] := rfl
      rw [split] at ran
      obtain ⟨d₄, front, back⟩ := foldlM_append_inv ran
      obtain ⟨d₅, stepped, last⟩ := foldlM_cons_inv back
      have leads₀ : Leads read {} path source [] s ⟨source, tree, []⟩ :=
        ⟨test, tree, reads, setting, rfl⟩
      have leads₄ : Leads read {} path source
          [.defaultImport, .namedImport, .callSites, .authAccessor] s d₄ :=
        ⟨test, tree, reads, setting, front⟩
      have others {spelling : Place → Text → Prop} {rules : List Rule} (others : .versionPrefix ∉ rules) :
          ∀ rule ∈ rules, ∀ d d' : Draft, Reached read {} path source rule s d →
            rewritten s d rule = .ok d'.text → read (hasMarkup path) d'.text = .ok d'.tree →
            CarriesAll s source tree ps spelling d → CarriesAll s source tree ps spelling d' := by
        intro rule listed d d' reached made reads all
        refine all.spelled_alike law ?_ reached (apart rule s d reached) made reads
        rintro rfl
        exact others listed
      have reached₄ : Reached read {} path source .versionPrefix s d₄ := leads₄.reached rfl
      obtain ⟨made, reads₅⟩ := step_made reached₄.reads stepped
      have all₄ := leads₀.preserves split front (others (by decide)) start
      have all₅ := all₄.versions law reached₄ made reads₅
      have all := (leads₄.step stepped).preserves split' last (others (by decide)) all₅
      exact ⟨d, output.symm, foldlM_reads last reads₅, all⟩

theorem KeptIn.imp {ch ch' : Changes} {text : Text} {k : Kind} {ns ms : List Node}
    (same : ch'.declare = ch.declare)
    (each : ∀ n ∈ ns, ∀ m, Kept ch source text k n m → Kept ch' source text k n m)
    (kept : KeptIn ch source text k ns ms) : KeptIn ch' source text k ns ms := by
  have comes {m : Node} (comes : Comes ch text k m) : Comes ch' text k m := by
    rw [Comes, same]
    exact comes
  induction ns generalizing ms with
  | nil => exact fun m inside => comes (kept m inside)
  | cons n ns rest =>
      have later := fun n listed => each n (List.mem_cons_of_mem _ listed)
      rcases kept with ⟨root, isImport, others⟩ | ⟨put, m, others, split, new, first, others_kept⟩
      · exact Or.inl ⟨root, isImport, rest later others⟩
      · exact Or.inr ⟨put, m, others, split, fun d listed => comes (new d listed),
          each n List.mem_cons_self m first, rest later others_kept⟩

theorem respell_edit {n : Node} {new : Text} (respell : (Changes.of s tree source rule).respell n new) :
    ⟨n.start, n.stop, new⟩ ∈ rule.edits s tree source := by
  cases rule with
  | versionPrefix => exact respell
  | _ => exact respell.elim

/-- Where a rule puts nothing in, what it does not touch is kept verbatim. -/
theorem Kept.verbatim (still : ∀ k m new, ¬ (Changes.of s d.tree d.text rule).swap k m new) (n : Node) :
    ∀ (above : List Node) {k : Kind} {n' : Node},
      (∀ p ∈ n.places (fun _ => true) above, isLiteral p.node → p.node.start < p.node.stop) →
      Kept (.of s d.tree d.text rule) d.text text k n n' →
      Kept (.verbatim s d rule) d.text text k n n' := by
  induction n using Node.byChildren with
  | step n below =>
      intro above k n' long kept
      rcases kept_cases kept with ⟨_, new, swap, _⟩ | same
      · exact absurd swap (still _ _ new)
      have alike : (Changes.verbatim s d rule).declare = (Changes.of s d.tree d.text rule).declare := rfl
      have children := KeptIn.imp alike (fun c isChild c' => below c isChild (n :: above) fun p lower =>
        long p (Node.mem_places.mpr (Or.inr ⟨rfl, c, isChild, lower⟩))) same.children
      refine Unswapped.kept { same with
        respelled := fun literal new respelled => ?_
        literal := fun literal none _ => same.literal literal (fun new r => none new (Or.inl r)) still
        children := children }
      rcases respelled with respell | ⟨untouched, rfl⟩
      · exact same.respelled literal new respell
      · refine same.literal literal (fun other respell => ?_) still
        have touched := untouched _ (respell_edit respell)
        have here := long ⟨n, above⟩ (Node.mem_places.mpr (Or.inl rfl)) literal
        simp only at touched here
        omega

/-- A module that imports the factory, with a call that is no request of the old client's. -/
def keptCall : Text :=
  "import c,\x7bcreatePresetApiClient\x7dfrom'@/lib/api'\nc.f('/api/v1/x')".toList

def keptCallShort : Text :=
  "import c,\x7bcreatePresetApiClient\x7dfrom'@/lib/api'\nc.f('/x')".toList

/-- The parts of the call, up to the byte at which the path ends. -/
def keptClient : Node := .mk .identifier (some .object) 48 49 []

def keptMember : Node :=
  .mk .memberExpression (some .function) 48 51
    [keptClient, .mk (.token ".") none 49 50 [], .mk .propertyIdentifier (some .property) 50 51 []]

def keptArguments (e : Nat) : Node :=
  .mk .arguments (some .arguments) 51 (e + 1)
    [.mk (.token "(") none 51 52 [], .mk .string none 52 e [], .mk (.token ")") none e (e + 1) []]

def keptCallNode (e : Nat) : Node :=
  .mk .callExpression none 48 (e + 1) [keptMember, keptArguments e]

def keptLine (e : Nat) : Node := .mk .expressionStatement none 48 (e + 1) [keptCallNode e]

/-- The trees of these modules. -/
def keptCallTree (e : Nat) : Node :=
  .mk .program none 0 (e + 1)
    [.mk .importStatement none 0 47
      [.mk (.token "import") none 0 6 [],
       .mk .importClause none 7 32
        [.mk .identifier none 7 8 [],
         .mk (.token ",") none 8 9 [],
         .mk .namedImports none 9 32
          [.mk (.token "\x7b") none 9 10 [],
           .mk .importSpecifier none 10 31 [.mk .identifier (some .name) 10 31 []],
           .mk (.token "\x7d") none 31 32 []]],
       .mk (.token "from") none 32 36 [],
       .mk .string (some .source) 36 47 []],
     keptLine e]

/-- The nodes around the call. -/
def keptAbove : List Node := [keptLine 63, keptCallTree 63]

/-- The place of the path. -/
def keptPath : Place := ⟨.mk .string none 52 63 [], keptArguments 63 :: keptCallNode 63 :: keptAbove⟩

def keptRun : List (Text × Node) := [(keptCall, keptCallTree 63), (keptCallShort, keptCallTree 56)]

theorem keptRun_tree {e : Text × Node} (listed : e ∈ keptRun) :
    (e.1 = keptCall → e.2 = keptCallTree 63) ∧ (e.1 = keptCallShort → e.2 = keptCallTree 56) := by
  revert e
  decide

theorem keptRun_unused : ∀ e ∈ keptRun, ∀ b ∈ (Bindings.collect {} e.1 e.2).list, b.replaceable = 0 := by
  decide +kernel

theorem keptCall_edits : pathEdits {} (keptCallTree 63) keptCall = [⟨52, 63, "'/x'".toList⟩] := by
  decide

/-- What a rule does to a module of the run that the reader can read again: nothing, or it is the one
step of the run. -/
theorem keptRun_step {rule : Rule} {text : Text} {tree : Node}
    (reached : Reached (readerOf keptRun) {} path source rule s d) (made : rewritten s d rule = .ok text)
    (reads : readerOf keptRun (hasMarkup path) text = .ok tree) :
    (rule.edits s d.tree d.text = [] ∧ (redirected s d.tree d.text).declared = []) ∨
      (rule = .versionPrefix ∧ d.text = keptCall ∧ d.tree = keptCallTree 63 ∧ text = keptCallShort ∧
        tree = keptCallTree 56) := by
  have before := readerOf_mem reached.reads
  obtain ⟨tree₀, _, _, reads₀, same, _⟩ := reached.run
  have none : ∀ b ∈ s.bindings.list, b.replaceable = 0 := by
    rw [same]
    exact keptRun_unused (source, tree₀) (readerOf_mem reads₀)
  have noClients : (redirected s d.tree d.text).declared = [] := by
    rw [redirected, replaces_false none]
    rfl
  cases rule with
  | defaultImport => exact Or.inl ⟨defaultImportEdits_nil none, noClients⟩
  | namedImport => exact Or.inl ⟨namedImportEdits_nil none, noClients⟩
  | callSites => exact Or.inl ⟨callSiteEdits_nil none, noClients⟩
  | authAccessor => exact Or.inl ⟨accessorEdits_nil none, noClients⟩
  | errorImport =>
      have still : ∀ e ∈ keptRun, errorImportEdits (settingOf {} .default e.1 e.2) e.2 e.1 = [] := by
        decide
      have config : s.config = (settingOf {} .default d.text d.tree).config := reached.config_eq
      exact Or.inl ⟨(errorImportEdits_congr config).trans (still (d.text, d.tree) before), noClients⟩
  | versionPrefix =>
      have paths : ∀ e ∈ keptRun, pathEdits {} e.2 e.1 = [] ∨ e.1 = keptCall := by decide
      rcases paths (d.text, d.tree) before with still | (here : d.text = keptCall)
      · refine Or.inl ⟨?_, noClients⟩
        rw [Rule.edits, reached.config_eq]
        exact still
      · have here_tree : d.tree = keptCallTree 63 := (keptRun_tree before).1 here
        have shorter : (Edit.apply keptCall [⟨52, 63, "'/x'".toList⟩]).toOption = some keptCallShort := by
          decide
        rw [rewritten, Rule.edits, reached.config_eq, here_tree, here, keptCall_edits] at made
        rw [made] at shorter
        cases shorter
        exact Or.inr ⟨rfl, here, here_tree, rfl, (keptRun_tree (readerOf_mem reads)).2 rfl⟩

/-- The rule for versions takes the version off the one path and keeps the rest. -/
theorem keptCall_kept : Kept (.ofPaths {} (keptCallTree 63) keptCall) keptCall keptCallShort .program
    (keptCallTree 63) (keptCallTree 56) := by
  have untouched {n : Node} (other : n.start ≠ 52) :
      Untouched (.ofPaths {} (keptCallTree 63) keptCall) n := by
    refine ⟨fun _ _ => id, fun new respell => ?_, fun _ => id⟩
    have made : ⟨n.start, n.stop, new⟩ ∈ pathEdits {} (keptCallTree 63) keptCall := respell
    rw [keptCall_edits, List.mem_singleton] at made
    injection made with start
    exact other start
  have alike {k : Kind} {n n' : Node} (others : ∀ p ∈ n.places (fun _ => true) [], p.node.start ≠ 52)
      (same : mirrors keptCall keptCallShort n n') :
      Kept (.ofPaths {} (keptCallTree 63) keptCall) keptCall keptCallShort k n n' :=
    kept_mirrored _ n [] (fun p inside => untouched (others p inside)) same
  have shorter : Kept (.ofPaths {} (keptCallTree 63) keptCall) keptCall keptCallShort .arguments
      (.mk .string none 52 63 []) (.mk .string none 52 56 []) := by
    refine Unswapped.kept ⟨⟨rfl, fun word => absurd word (by decide), fun _ new respell => ?_,
      fun _ none _ => ?_, fun _ => False.elim⟩, rfl, fun _ => id, keptIn_nil⟩
    · have made : ⟨52, 63, new⟩ ∈ pathEdits {} (keptCallTree 63) keptCall := respell
      rw [keptCall_edits, List.mem_singleton] at made
      injection made with _ _ same
      rw [same]
      decide
    · refine absurd ?_ (none "'/x'".toList)
      show ⟨52, 63, "'/x'".toList⟩ ∈ pathEdits {} (keptCallTree 63) keptCall
      rw [keptCall_edits]
      exact List.mem_singleton_self _
  refine kept_inner (untouched (by decide)) rfl rfl (by decide) (by decide)
    (keptIn_cons (alike (by decide) (by decide)) (keptIn_cons ?_ keptIn_nil))
  refine kept_inner (untouched (by decide)) rfl rfl (by decide) (by decide) (keptIn_cons ?_ keptIn_nil)
  refine kept_inner (untouched (by decide)) rfl rfl (by decide) (by decide)
    (keptIn_cons (alike (by decide) (by decide)) (keptIn_cons ?_ keptIn_nil))
  exact kept_inner (untouched (by decide)) rfl rfl (by decide) (by decide)
    (keptIn_cons (alike (by decide) (by decide)) (keptIn_cons shorter
      (keptIn_cons (alike (by decide) (by decide)) keptIn_nil)))

theorem keptRun_verbatim : Verbatim (readerOf keptRun) where
  regular := by
    have regular : ∀ e ∈ keptRun, Regular e.2 := regular_of_simple (by decide)
      (by decide) (by decide) (by decide)
    intro _ _ _ reads
    exact regular _ (readerOf_mem reads)
  quoted := by
    have quoted : ∀ e ∈ keptRun, ∀ p ∈ e.2.allPlaces, isLiteral p.node →
        p.node.start < p.node.stop ∧
          ∀ c ∈ p.node.children, ¬ (c.start = p.node.start ∧ c.stop = p.node.stop) := by
      decide
    intro _ _ _ reads
    exact quoted _ (readerOf_mem reads)
  code := by
    intro path source rule s d text tree reached _ made reads
    have long : ∀ e ∈ keptRun, ∀ p ∈ e.2.allPlaces, isLiteral p.node → p.node.start < p.node.stop := by
      decide
    rcases keptRun_step reached made reads with ⟨noEdits, noClients⟩ | ⟨rfl, here, before, rfl, rfl⟩
    · have untouched := untouched_of_none noEdits noClients
      rw [rewritten_of_no_edits noEdits] at made
      cases made
      cases reached.reads.symm.trans reads
      refine Kept.verbatim (fun k m new => (untouched m).1 k new) d.tree []
        (long _ (readerOf_mem reads)) ?_
      exact kept_mirrored _ _ [] (fun p _ => untouched p.node) (mirrors_self _)
    · refine Kept.verbatim (fun _ _ _ => id) d.tree [] (long _ (readerOf_mem reached.reads)) ?_
      rw [Changes.of, reached.config_eq, before, here]
      exact keptCall_kept

theorem keptPath_argument : IsArgument (keptCallTree 63) ⟨keptCallNode 63, keptAbove⟩
    ⟨keptClient, keptMember :: keptCallNode 63 :: keptAbove⟩ keptPath where
  inTree := by
    have line : ⟨keptLine 63, [keptCallTree 63]⟩ ∈ (keptCallTree 63).allPlaces :=
      Node.child_mem_places (Node.mem_places.mpr (Or.inl rfl)) rfl (by simp [keptCallTree, Node.children])
    exact Node.child_mem_places line rfl (by simp [keptLine, Node.children])
  isCall := rfl
  function := by
    refine ⟨keptMember, by simp [keptCallNode, Node.children], rfl, ?_⟩
    exact Node.child_mem_places (Node.mem_places.mpr (Or.inl rfl)) rfl
      (by simp [keptMember, Node.children])
  arguments := ⟨keptArguments 63, by simp [keptCallNode, Node.children], rfl,
    Or.inr ⟨rfl, by simp [keptArguments, Node.children, keptPath], rfl⟩⟩

theorem keptPath_legacy : IsLegacyLiteral (settingOf {} .default keptCall (keptCallTree 63)) keptCall
    (keptCallTree 63) keptPath := by
  have unused := keptRun_unused (keptCall, keptCallTree 63) List.mem_cons_self
  have wf : (keptCallTree 63).WellFormed := by decide
  have none (b : Binding) (listed : b ∈ (Bindings.collect {} keptCall (keptCallTree 63)).list)
      (r : Place) : ¬ IsReplaceable {} keptCall (keptCallTree 63) b.kind b.name r := by
    intro leftover
    have used := (replaceable_pos_iff wf listed).mpr ⟨r, leftover⟩
    rw [unused b listed] at used
    exact Nat.lt_irrefl 0 used
  refine ⟨⟨"c", .client, 1, 0⟩, by decide, rfl, _, _, ?_, keptPath_argument, ?_, Or.inl rfl, ?_, ?_,
    rfl, fun b listed r leftover => absurd leftover (none b listed r),
    fun b listed _ r c up leftover => absurd leftover (none b listed r)⟩
  · decide
  · decide
  · decide
  · decide

theorem keptCall_ran : migrateWith (readerOf keptRun) {} ⟨"a.ts"⟩ keptCall =
    .ok ⟨true, keptCallShort, [.versionPrefix], .default, .apiModule⟩ := by
  have made : (migrateWith (readerOf keptRun) {} ⟨"a.ts"⟩ keptCall).toOption =
      some ⟨true, keptCallShort, [.versionPrefix], .default, .apiModule⟩ := by
    decide +kernel
  cases ran : migrateWith (readerOf keptRun) {} ⟨"a.ts"⟩ keptCall with
  | error e => simp [ran, Except.toOption] at made
  | ok o => simpa [ran, Except.toOption] using made

theorem keptCall_reads :
    readerOf keptRun (hasMarkup ⟨"a.ts"⟩) keptCall = .ok (keptCallTree 63) := by rfl

theorem keptCall_preset : detectPreset ⟨"a.ts"⟩ keptCall .default = .default := by decide

/-- The module imports the factory when its paths are looked at. -/
theorem keptPath_loses : LosesVersions (readerOf keptRun) ⟨"a.ts"⟩ keptCall keptPath := by
  let s := settingOf {} .default keptCall (keptCallTree 63)
  let early := [Rule.defaultImport, .namedImport, .callSites, .authAccessor]
  have still : ∀ rule ∈ early, rule.edits s (keptCallTree 63) keptCall = [] := by decide
  have setting : s = settingOf {} (detectPreset ⟨"a.ts"⟩ keptCall .default) keptCall (keptCallTree 63) := by
    rw [keptCall_preset]
  have leads : Leads (readerOf keptRun) {} ⟨"a.ts"⟩ keptCall early s ⟨keptCall, keptCallTree 63, []⟩ :=
    ⟨by decide, keptCallTree 63, keptCall_reads, setting,
      foldlM_still fun rule listed => rewritten_of_no_edits (still rule listed)⟩
  exact ⟨⟨s, _, leads.reached rfl, by decide⟩, by decide⟩

/-- A module with a request that is migrated and a call that is not. -/
def partlyMigrated : Text := "import c from'@/lib/api'\nc.get('/x')\nc.postForm('/api/v1/x')".toList

/-- Whether the migration leaves a call with the legacy client, but not the literal it is given. -/
def shortensKeptCall : Bool :=
  match Script.parse false partlyMigrated, migrate {} ⟨"a.ts"⟩ partlyMigrated with
  | .ok tree, .ok o => match Script.parse false o.source with
    | .ok tree' => decide <|
        ⟨"c", .client, 2, 1⟩ ∈ (Bindings.collect {} partlyMigrated tree).list ∧
        ∃ call ∈ tree.allPlaces, call.node.kind = .callExpression ∧
          (∃ f ∈ call.node.children, f.plays .function ∧
            ∃ q ∈ f.places (fun _ => true) (call.node :: call.above),
              (∀ a ∈ q.above, a.kind ≠ .importStatement) ∧ q.node.kind = .identifier ∧
                q.node.name partlyMigrated = "c" ∧ q.isShadowed partlyMigrated = false ∧
                ¬ BindingKind.client.replaces {} partlyMigrated q) ∧
          ∃ args ∈ call.node.children, args.plays .arguments ∧ args.kind = .arguments ∧
            ∃ n ∈ args.children, isLiteral n ∧
              ∀ p' ∈ tree'.allPlaces, p'.node.text o.source ≠ n.text partlyMigrated
    | .error _ => false
  | _, _ => false

end ClientMigration.Codemod
