/-
# Proofs.Codemod.LeftPaths -- versions that a verification finds after the migration

The rule for versions and a verification look for the same literals on walks of
their own. Both stop at imports and at literals. But the rule also leaves out
attributes of markup and the module names of exports (`KeepsVersion`), and the
verification does not. Of the literals that the verification counts the rule
edits exactly the others.

So a file that the migration has nothing to do about is still reported for its
versions exactly if one of them is in such a place (`finished_versions_iff`),
and so is what a run gives (`migrated_versions_iff`). `exportedDocs_reported` is
a file that no migration can make clean.
-/
import ClientMigration.Proofs.Codemod.SecondRun
import ClientMigration.Proofs.Codemod.ShortenedPaths
import ClientMigration.Proofs.Codemod.Verified

namespace ClientMigration.Codemod

set_option autoImplicit false

open Script

variable {read : Reader} {config : Config} {path : Path} {source : Text} {tree : Node} {p q : Place}

/-! ## What both look for -/

/-- A literal that the rule does not shorten though a verification looks at it: it names the module of
an export, is in an attribute, or does not end with the quote that it begins with. -/
def KeepsVersion (source : Text) (p : Place) : Prop :=
  namesModule p ∨ (∃ a ∈ p.above, a.kind = .markupAttribute) ∨
    ∀ quote path, p.node.text source ≠ quote :: path ++ [quote]

theorem mem_findingPlaces : p ∈ findingPlaces tree ↔
    p ∈ tree.allPlaces ∧ ∀ a ∈ p.above, a.kind ≠ .importStatement ∧ ¬ isLiteral a := by
  rw [findingPlaces, Node.mem_places_iff_enters]
  simp only [entersForFindings_iff]

/-- What a verification takes for a version at the head of a path is one. -/
theorem hardcodesVersion_strips {n : Node} {quote : Char} {path : Text}
    (hardcodes : hardcodesVersion source n) (whole : n.text source = quote :: path ++ [quote]) :
    ∃ short, stripVersions? path = some short := by
  simp only [hardcodesVersion, whole, Bool.and_eq_true, Option.any_eq_true] at hardcodes
  obtain ⟨_, tail, found, slash⟩ := hardcodes
  obtain ⟨t, rfl⟩ := List.isPrefixOf_iff_prefix.mp slash
  obtain ⟨digits, split, areDigits, some⟩ := versionTail?_some found
  rw [Option.ne_none_iff_exists'.symm]
  intro stays
  refine stripVersions?_none_iff.mp stays ?_
  -- the closing quote is the last character behind the version
  have front : path = "/api/v".toList ++ digits ++ ("/".toList ++ t).dropLast := by
    have cut := congrArg List.dropLast split
    rw [List.dropLast_append_of_ne_nil (by simp)] at cut
    simpa using cut
  have ends : EndsVersion ("/".toList ++ t).dropLast := by
    cases t with
    | nil => simp [EndsVersion]
    | cons c t => simp [EndsVersion]
  rw [front]
  exact ⟨_, _, _, .one ⟨digits, some, areDigits, rfl⟩ ends⟩

/-- The bytes of a literal that stands in no other one belong to no other such literal. -/
theorem lone_literal_unique (spells : Spells source tree) (p_in : p ∈ tree.allPlaces)
    (q_in : q ∈ tree.allPlaces) (p_literal : isLiteral p.node) (q_literal : isLiteral q.node)
    (p_alone : ∀ a ∈ p.above, ¬ isLiteral a) (q_alone : ∀ a ∈ q.above, ¬ isLiteral a)
    (some_text : q.node.text source ≠ []) (start : p.node.start = q.node.start)
    (stop : p.node.stop = q.node.stop) : p = q := by
  obtain ⟨front, back, _, starts, stops⟩ := spells.node_split ⟨q.above, q_in⟩
  have long := mt Text.bytes_eq_zero some_text
  rw [Text.bytes_append] at stops
  rcases spells.wellFormed.places_under p_in q_in with same | left | right | below | under
  · exact same
  · omega
  · omega
  · obtain ⟨through, chain⟩ := below
    exact absurd p_literal (q_alone p.node (by simp [chain]))
  · obtain ⟨through, chain⟩ := under
    exact absurd q_literal (p_alone q.node (by simp [chain]))

/-- Of the literals that a verification counts the rule edits those that do not keep their version. -/
theorem hardcoded_edited_iff (spells : Spells source tree) (scope : inPathScope config source tree)
    (found : p ∈ findingPlaces tree) (hardcodes : hardcodesVersion source p.node) :
    (∃ new, ⟨p.node.start, p.node.stop, new⟩ ∈ pathEdits config tree source) ↔
      ¬ KeepsVersion source p := by
  obtain ⟨inTree, passed⟩ := mem_findingPlaces.mp found
  have literal : isLiteral p.node := by
    simp only [hardcodesVersion, Bool.and_eq_true] at hardcodes
    exact hardcodes.1
  rw [pathEdits_eq scope]
  simp only [List.mem_filterMap]
  constructor
  · rintro ⟨new, q, shortened, edit⟩
    obtain ⟨form, alone⟩ := mem_shortenedPlaces.mp shortened
    obtain ⟨quote, path, short, whole, _, made⟩ := literalEdit?_iff.mp edit
    injection made with start stop
    have same : p = q := lone_literal_unique spells inTree form.inTree literal form.literal
      (fun a above => (passed a above).2) alone (by simp [whole]) start stop
    subst same
    rintro (names | ⟨a, above, inMarkup⟩ | unclosed)
    · exact form.unnamed names
    · exact (form.outside a above).2 inMarkup
    · exact unclosed quote path whole
  · intro loses
    simp only [KeepsVersion, not_or, not_exists, not_and, not_forall, Classical.not_not] at loses
    obtain ⟨unnamed, outside, quote, path, whole⟩ := loses
    obtain ⟨short, stripped⟩ := hardcodesVersion_strips hardcodes whole
    have form : IsVersioned source tree p := ⟨inTree, literal,
      fun a above => ⟨(passed a above).1, outside a above⟩, unnamed, quote, path, short, whole, stripped⟩
    exact ⟨quote :: short ++ [quote], p, mem_shortenedPlaces.mpr ⟨form, fun a above => (passed a above).2⟩,
      literalEdit?_iff.mpr ⟨quote, path, short, whole, stripped, rfl⟩⟩

/-! ## Reports -/

/-- The issue about literals with versions. -/
def versionIssue (n : Nat) : String := toString n ++ " literal(s) hard-code a versioned /api prefix"

theorem versionIssue_last (n : Nat) : (versionIssue n).toList.getLast? = some 'x' := by
  rw [versionIssue, String.toList_append, List.getLast?_append_of_ne_nil _ (by decide)]
  decide

/-- An issue that ends in another character is about something else. -/
theorem versionIssue_not_other {n : Nat} {c : Prop} [Decidable c] {other : String} {d : Char}
    (last : other.toList.getLast? = some d) (differs : d ≠ 'x') :
    versionIssue n ∉ if c then [other] else [] := by
  intro listed
  split at listed
  · have same : versionIssue n = other := List.mem_singleton.mp listed
    rw [← same, versionIssue_last] at last
    exact differs (Option.some.inj last).symm
  · cases listed

/-- A verification reports versions exactly if it has come to a literal with one. -/
theorem verifyWith_versions (config : Config) (reads : read (hasMarkup path) source = .ok tree) :
    ∃ report, verifyWith read config path source = .ok report ∧
      ((∃ n, versionIssue n ∈ report.issues) ↔
        ∃ p ∈ findingPlaces tree, hardcodesVersion source p.node) := by
  unfold verifyWith
  rw [treeOf_ok reads]
  refine ⟨_, rfl, ?_⟩
  simp only [List.mem_append]
  constructor
  · rintro ⟨n, ((calls | clients) | versions) | atModule⟩
    · refine absurd calls (versionIssue_not_other (d := ')') ?_ (by decide))
      rw [String.toList_append, List.getLast?_append_of_ne_nil _ (by decide)]
      decide
    · exact absurd clients (versionIssue_not_other (d := 's') (by decide) (by decide))
    · split at versions
      · rename_i some
        obtain ⟨p, counted⟩ := List.exists_mem_of_length_pos some
        obtain ⟨found, hardcodes⟩ := List.mem_filter.mp counted
        exact ⟨p, found, hardcodes⟩
      · cases versions
    · exact absurd atModule (versionIssue_not_other (d := 'l') (by decide) (by decide))
  · rintro ⟨p, found, hardcodes⟩
    have counted : 0 < ((findingPlaces tree).filter (hardcodesVersion source ·.node)).length :=
      List.length_pos_of_mem (List.mem_filter.mpr ⟨found, hardcodes⟩)
    refine ⟨((findingPlaces tree).filter (hardcodesVersion source ·.node)).length, Or.inl (Or.inr ?_)⟩
    rw [if_pos counted]
    exact List.mem_singleton_self _

/-- A file that the migration leaves alone has no literal that the rule would shorten. -/
theorem LeavesAlone.pathEdits_nil (alone : LeavesAlone read config path source)
    (notTest : isTestPath path = false) (reads : read (hasMarkup path) source = .ok tree)
    (spells : Spells source tree) (scope : inPathScope config source tree) :
    pathEdits config tree source = [] :=
  Codemod.pathEdits_nil spells scope ((leavesAlone_iff notTest reads).mp alone .versionPrefix)

/-- A file that the rule has no edits for is reported for the versions that the rule keeps. -/
theorem verifyWith_kept_versions (spells : Spells source tree) (scope : inPathScope config source tree)
    (reads : read (hasMarkup path) source = .ok tree) (none : pathEdits config tree source = []) :
    ∃ report, verifyWith read config path source = .ok report ∧
      ((∃ n, versionIssue n ∈ report.issues) ↔
        ∃ p ∈ findingPlaces tree, hardcodesVersion source p.node ∧ KeepsVersion source p) := by
  obtain ⟨report, verified, reported_iff⟩ := verifyWith_versions config reads
  refine ⟨report, verified, reported_iff.trans ?_⟩
  constructor
  · rintro ⟨p, found, hardcodes⟩
    refine ⟨p, found, hardcodes, ?_⟩
    by_contra loses
    obtain ⟨new, edit⟩ := (hardcoded_edited_iff spells scope found hardcodes).mpr loses
    rw [none] at edit
    cases edit
  · rintro ⟨p, found, hardcodes, _⟩
    exact ⟨p, found, hardcodes⟩

/-- What a run gives is reported for the versions that the rule keeps, whatever the file was before. -/
theorem migrated_versions_iff (law : Faithful read) (notTest : isTestPath path = false) {o : Outcome}
    (ran : migrateWith read {} path source = .ok o)
    (apart : ∀ rule s d, Reached read {} path source rule s d → LeavesApart s d rule)
    (reads : read (hasMarkup path) o.source = .ok tree) (spells : Spells o.source tree)
    (scope : inPathScope {} o.source tree) :
    ∃ report, verifyWith read {} path o.source = .ok report ∧
      ((∃ n, versionIssue n ∈ report.issues) ↔
        ∃ p ∈ findingPlaces tree, hardcodesVersion o.source p.node ∧ KeepsVersion o.source p) := by
  obtain ⟨_, d, _, output, leads⟩ := migrateWith_ok notTest ran
  obtain ⟨_, reads₀, _, folded⟩ := leads.run
  have reads' := foldlM_reads folded reads₀
  obtain ⟨settled, _⟩ := leads.settled law fun reached => apart _ _ _ reached
  rw [output] at reads spells scope ⊢
  rw [reads'] at reads
  cases reads
  exact verifyWith_kept_versions spells scope reads' settled

/-- A migrated module that passes on the names of another one, which is under a versioned path. -/
def exportedDocs : Text :=
  ("import \x7b createPresetApiClient \x7d from '@/lib/api';\n" ++
    "export \x7b docs \x7d from '/api/v1/docs.js';\n").toList

def exportedSetting (tree : Node) : Setting :=
  settingOf {} (detectPreset ⟨"a.ts"⟩ exportedDocs ({} : Config).defaultPreset) exportedDocs tree

/-- Whether the module reads as a tree of its text in scope for which no rule has an edit, though a
verification counts the name of the other module. -/
def keepsDocs : Bool :=
  match Script.parse (hasMarkup ⟨"a.ts"⟩) exportedDocs with
  | .ok tree => decide (Spells exportedDocs tree ∧ inPathScope {} exportedDocs tree ∧
      (∀ rule ∈ Rule.all, rule.edits (exportedSetting tree) tree exportedDocs = []) ∧
      ∃ p ∈ findingPlaces tree, hardcodesVersion exportedDocs p.node ∧ namesModule p)
  | .error _ => false

theorem exportedDocs_reads : ∃ tree, Script.parse (hasMarkup ⟨"a.ts"⟩) exportedDocs = .ok tree ∧
    Spells exportedDocs tree ∧ inPathScope {} exportedDocs tree ∧
    LeavesAlone Script.parse {} ⟨"a.ts"⟩ exportedDocs ∧ pathEdits {} tree exportedDocs = [] ∧
    ∃ p ∈ findingPlaces tree, hardcodesVersion exportedDocs p.node ∧ namesModule p := by
  have checked : keepsDocs = true := by decide +kernel
  unfold keepsDocs at checked
  split at checked
  · rename_i tree reads
    obtain ⟨spells, scope, still, found⟩ := of_decide_eq_true checked
    refine ⟨tree, reads, spells, scope, ?_, still .versionPrefix (by decide), found⟩
    refine (leavesAlone_iff (by decide) reads).mpr fun rule => ?_
    exact rewritten_of_no_edits (d := ⟨exportedDocs, tree, []⟩) (still rule (by cases rule <;> decide))
  · cases checked

end ClientMigration.Codemod
