/-
# Proofs.Codemod.ClearEdits -- the edits of a rule conflict in one case

The rules take ranges of quite different nodes: names, calls, literals, clauses,
whole statements with the line break behind them, and offsets behind a comma. In
the tree of a text (`Spells`) they keep out of each other's way: names and
literals come one behind the other (`callPlaces_ordered`, `pathEdits_clear`), a
client is declared at the end of a node, which is never inside a name
(`anchor_clear`), and what the rules for imports do to a statement ends before
the next one begins (`deletion_le`), since that begins with a word.

Calls of the accessor are the one exception. A call takes the whole range of its
node, and its type arguments can hold another call (`NestsCalls`).
-/
import ClientMigration.Proofs.Codemod.Applied
import ClientMigration.Proofs.Codemod.Carried
import ClientMigration.Proofs.Codemod.ImportRules
import ClientMigration.Proofs.Text.Edit

namespace ClientMigration.Codemod

set_option autoImplicit false

open Script

variable {s : Setting} {source : Text} {tree : Node}

/-! ## Trees of a text -/

/-- A tree that a text can have: its nodes end between characters, an import begins with its keyword,
and names in braces end with the brace. -/
structure Spells (source : Text) (tree : Node) : Prop where
  wellFormed : tree.WellFormed
  cut : ∀ p ∈ tree.allPlaces, source.IsCut p.node.start ∧ source.IsCut p.node.stop
  keyword : ∀ statement ∈ importStatements tree, (statement.text source).startsWith "import" = true
  brace : ∀ p ∈ tree.allPlaces, p.node.kind = .namedImports →
    ∃ c ∈ p.node.children.getLast?, c.kind = .token "\x7d" ∧ c.text source = ['\x7d']

theorem spells_iff : Spells source tree ↔ tree.WellFormed ∧
    (∀ p ∈ tree.allPlaces, source.IsCut p.node.start ∧ source.IsCut p.node.stop) ∧
    (∀ statement ∈ importStatements tree, (statement.text source).startsWith "import" = true) ∧
    ∀ p ∈ tree.allPlaces, p.node.kind = .namedImports →
      ∃ c ∈ p.node.children.getLast?, c.kind = .token "\x7d" ∧ c.text source = ['\x7d'] :=
  ⟨fun spells => ⟨spells.wellFormed, spells.cut, spells.keyword, spells.brace⟩,
    fun ⟨wellFormed, cut, keyword, brace⟩ => ⟨wellFormed, cut, keyword, brace⟩⟩

instance (source : Text) (tree : Node) : Decidable (Spells source tree) :=
  decidable_of_iff _ spells_iff.symm

theorem Spells.cut_within (spells : Spells source tree) {n : Node} (inside : Node.Within tree n) :
    source.IsCut n.start ∧ source.IsCut n.stop := by
  obtain ⟨above, place⟩ := inside
  exact spells.cut _ place

theorem within_wellFormed (wf : tree.WellFormed) {n : Node} (inside : Node.Within tree n) :
    n.WellFormed := by
  obtain ⟨above, place⟩ := inside
  exact (wf.place place).2.1

/-- An edit in a node's stead is one of the text. -/
theorem Spells.node_inside (spells : Spells source tree) {n : Node} (inside : Node.Within tree n)
    (text : Text) : Edit.Inside source ⟨n.start, n.stop, text⟩ := by
  have cut := spells.cut_within inside
  exact ⟨(within_wellFormed spells.wellFormed inside).le, cut.1, cut.2⟩

theorem insert_inside {n : Nat} (cut : source.IsCut n) (text : Text) :
    Edit.Inside source (.insert n text) :=
  ⟨Nat.le_refl n, cut, cut⟩

/-- What follows a node's start begins with the node's text. -/
theorem text_back {n : Node} {front back : Text} (whole : source = front ++ back)
    (starts : front.bytes = n.start) (cut : source.IsCut n.stop) (le : n.start ≤ n.stop) :
    ∃ rest, back = n.text source ++ rest ∧ (front ++ n.text source).bytes = n.stop := by
  obtain ⟨through, rest, whole', stops⟩ := cut
  obtain ⟨between, rfl, rfl⟩ := Text.front_of_le (whole.symm.trans whole') (by omega)
  have text : n.text source = between := by
    rw [Text.bytes_append] at stops
    have slice := Text.slice?_append front between rest
    unfold Node.text Text.slice
    rw [whole', ← starts, ← stops, slice]
    rfl
  rw [text]
  exact ⟨rest, rfl, stops⟩

/-- A text in parts, one of them the text of a node. -/
theorem Spells.node_split (spells : Spells source tree) {n : Node} (inside : Node.Within tree n) :
    ∃ front back, source = front ++ (n.text source ++ back) ∧ front.bytes = n.start ∧
      (front ++ n.text source).bytes = n.stop := by
  obtain ⟨⟨front, rest, whole, starts⟩, cut⟩ := spells.cut_within inside
  obtain ⟨back, rfl, stops⟩ :=
    text_back whole starts cut (within_wellFormed spells.wellFormed inside).le
  exact ⟨front, back, whole, starts, stops⟩

/-! ## Statements that go -/

/-- A statement goes with the line break behind it. -/
theorem deletion_eq {n : Node} {front rest : Text} (whole : source = front ++ rest)
    (stops : front.bytes = n.stop) :
    ∃ line further : Text, rest = line ++ further ∧ (∀ c ∈ line, c = '\r' ∨ c = '\n') ∧
      deletion source n = ⟨n.start, (front ++ line).bytes, []⟩ := by
  have behind : (source.dropBytes? n.stop).getD [] = rest := by
    rw [whole, ← stops, Text.dropBytes?_append]
    rfl
  unfold deletion
  simp only [behind]
  split
  · rename_i further
    exact ⟨['\r', '\n'], further, rfl, by simp, by rw [Text.bytes_append, stops]; rfl⟩
  · rename_i further
    exact ⟨['\n'], further, rfl, by simp, by rw [Text.bytes_append, stops]; rfl⟩
  · exact ⟨[], rest, rfl, by simp, by rw [Text.bytes_append, stops]; rfl⟩

section

variable (spells : Spells source tree)
include spells

theorem deletion_inside {n : Node} (inside : Node.Within tree n) :
    Edit.Inside source (deletion source n) ∧ n.stop ≤ (deletion source n).stop := by
  have le := (within_wellFormed spells.wellFormed inside).le
  obtain ⟨cut, front, rest, whole, stops⟩ := spells.cut_within inside
  obtain ⟨line, further, rfl, _, same⟩ := deletion_eq whole stops
  rw [same, Text.bytes_append]
  refine ⟨⟨by simp only; omega, cut, front ++ line, further, by simp [whole], ?_⟩, by simp only; omega⟩
  rw [Text.bytes_append]

/-- The next import begins behind the line break that goes. -/
theorem deletion_le {m n : Node} (inside : Node.Within tree m) (isImport : n ∈ importStatements tree)
    (behind : m.stop ≤ n.start) : (deletion source m).stop ≤ n.start := by
  obtain ⟨_, front, rest, whole, stops⟩ := spells.cut_within inside
  obtain ⟨line, further, rfl, breaks, same⟩ := deletion_eq whole stops
  have n_within := importStatement_within isImport
  obtain ⟨upTo, after, whole', starts, _⟩ := spells.node_split n_within
  obtain ⟨word, keyword⟩ := List.isPrefixOf_iff_prefix.mp (spells.keyword n isImport)
  rw [same]
  show (front ++ line).bytes ≤ n.start
  by_contra early
  -- then the keyword would begin in the line break
  have whole'' : upTo ++ (n.text source ++ after) = (front ++ line) ++ further := by
    rw [← whole', whole]; simp
  obtain ⟨between, split, text⟩ := Text.front_of_le whole'' (by omega)
  have some_break : between ≠ [] := by
    rintro rfl
    rw [List.append_nil] at split
    rw [split] at early
    omega
  obtain ⟨c, between, rfl⟩ := List.exists_cons_of_ne_nil some_break
  have first : c = 'i' := by
    rw [← keyword] at text
    injection text.symm
  have among : c ∈ line := by
    have whole''' : front ++ line = upTo ++ c :: between := split
    have longer : front.bytes ≤ upTo.bytes := by omega
    obtain ⟨gap, rfl, rest_eq⟩ := Text.front_of_le whole''' longer
    rw [rest_eq]
    simp
  rcases breaks c among with rfl | rfl
  · exact absurd first (by decide)
  · exact absurd first (by decide)

/-- A statement that goes leaves the bytes of other imports. -/
theorem deletion_avoids {m n : Node} (isImport : m ∈ importStatements tree)
    (isImport' : n ∈ importStatements tree) (other : m ≠ n) :
    (deletion source m).Avoids n.start n.stop := by
  rcases spells.wellFormed.inside.apart (importStatement_mem isImport).1
    (importStatement_mem isImport').1 with same | before | behind
  · exact absurd same other
  · exact Or.inl (deletion_le spells (importStatement_within isImport) isImport' before)
  · exact Or.inr behind

/-! ## Imports -/

/-- An edit keeps to a statement and the line break behind it. -/
def KeepsTo (source : Text) (statement : Node) (e : Edit) : Prop :=
  statement.start ≤ e.start ∧ e.stop ≤ (deletion source statement).stop

omit spells in
theorem importStatements_ordered (wf : tree.WellFormed) :
    (importStatements tree).Pairwise fun m n => m.stop ≤ n.start :=
  wf.inside.pairwise.filter _

/-- Edits of different imports do not conflict. -/
theorem keepsTo_clear {m n : Node} (isImport : m ∈ importStatements tree)
    (isImport' : n ∈ importStatements tree) (behind : m.stop ≤ n.start) {e f : Edit}
    (first : KeepsTo source m e) (second : KeepsTo source n f) : ¬ e.Conflicts f := by
  apply Edit.not_conflicts_of_le
  have le := deletion_le spells (importStatement_within isImport) isImport' behind
  have stop := first.2
  have start := second.1
  omega

/-- The edits that trim an import keep to it and do not conflict. -/
theorem Trims.clear {statement : Node} (isImport : statement ∈ importStatements tree)
    {dropsDefault : String → Bool} {dropsNamed : Node → Bool} {t : Trimmed} {r : StatementEdits}
    (trims : Trims s source dropsDefault dropsNamed statement t r) :
    (∀ e ∈ r.edits, Edit.Inside source e ∧ KeepsTo source statement e) ∧ Edit.Clear r.edits := by
  have inside := importStatement_within isImport
  have wf := within_wellFormed spells.wellFormed inside
  obtain ⟨removal, longer⟩ := deletion_inside spells inside
  have removal_start : (deletion source statement).start = statement.start := rfl
  -- the clause is replaced, or the statement goes
  have clause_keeps (text? : Option String) :
      Edit.Inside source (clauseEdit source statement t.clause text?) ∧
        KeepsTo source statement (clauseEdit source statement t.clause text?) := by
    have isChild := importClause?_mem trims.clause
    obtain ⟨left, _, right⟩ := wf.child isChild
    cases text? with
    | none => exact ⟨removal, removal_start.ge, Nat.le_refl _⟩
    | some text => exact ⟨spells.node_inside (inside.child isChild) _, left, Nat.le_trans right longer⟩
  have front_keeps : Edit.Inside source (factoryImport s statement) ∧
      KeepsTo source statement (factoryImport s statement) :=
    ⟨insert_inside (spells.cut_within inside).1 _, Nat.le_refl _, Nat.le_trans wf.le longer⟩
  rw [trims.edits]
  split
  · refine ⟨?_, ?_⟩
    · intro e listed
      rcases List.mem_cons.mp listed with rfl | later
      · exact front_keeps
      · cases List.mem_singleton.mp later
        exact clause_keeps _
    · refine List.pairwise_pair.mpr (Edit.not_conflicts_of_le ?_)
      exact (clause_keeps _).2.1
  · refine ⟨?_, List.pairwise_singleton _ _⟩
    intro e listed
    cases List.mem_singleton.mp listed
    exact clause_keeps _

/-- A rule that trims imports one after the other makes no edits that conflict. -/
theorem statementEdits_clear {f : Bool → Node → Option StatementEdits} {dropsDefault : String → Bool}
    {dropsNamed : Node → Bool} (trims : ∀ {pending statement r}, f pending statement = some r →
      ∃ t, Trims s source dropsDefault dropsNamed statement t r) (pending : Bool) :
    (∀ e ∈ statementEdits f pending (importStatements tree), Edit.Inside source e) ∧
      Edit.Clear (statementEdits f pending (importStatements tree)) := by
  have each {change : Node × StatementEdits}
      (changed : change ∈ changesOf f pending (importStatements tree)) :
      change.1 ∈ importStatements tree ∧
        (∀ e ∈ change.2.edits, Edit.Inside source e ∧ KeepsTo source change.1 e) ∧
        Edit.Clear change.2.edits := by
    obtain ⟨isImport, pending', made⟩ := mem_changesOf changed
    obtain ⟨t, trims⟩ := trims made
    exact ⟨isImport, trims.clear spells isImport⟩
  rw [statementEdits_eq]
  constructor
  · intro e listed
    obtain ⟨change, changed, inside⟩ := List.mem_flatMap.mp listed
    exact ((each changed).2.1 e inside).1
  · refine List.pairwise_flatMap.mpr ⟨fun change changed => (each changed).2.2, ?_⟩
    have ordered : (changesOf f pending (importStatements tree)).Pairwise fun a b =>
        a.1.stop ≤ b.1.start :=
      List.pairwise_map.mp
        ((importStatements_ordered spells.wellFormed).sublist (changesOf_sublist pending _))
    refine ordered.imp_of_mem fun {a b} here there behind e e_in f f_in => ?_
    exact keepsTo_clear spells (each here).1 (each there).1 behind ((each here).2.1 e e_in).2
      ((each there).2.1 f f_in).2

/-! ## Error helpers -/

/-- Names in braces are followed by the brace, behind blanks and a comma if there is one. -/
theorem comma_le {braces last : Node} (inside : Node.Within tree braces)
    (kind : braces.kind = .namedImports) (isLast : (specifiers braces).getLast? = some last)
    {blank rest : Text} (comma : source.dropBytes? last.stop = some (blank ++ ',' :: rest))
    (isBlank : blank.all Text.isBlank = true) :
    source.IsCut (last.stop + blank.bytes + 1) ∧ last.stop + blank.bytes + 1 ≤ braces.stop := by
  obtain ⟨isChild, specifier⟩ := specifier_mem (List.mem_of_getLast? isLast)
  have wf := within_wellFormed spells.wellFormed inside
  obtain ⟨_, front, back, whole, stops⟩ := spells.cut_within (inside.child isChild)
  have follows : back = blank ++ ',' :: rest := by
    rw [whole, ← stops, Text.dropBytes?_append] at comma
    exact Option.some.inj comma
  obtain ⟨above, place⟩ := inside
  obtain ⟨c, isEnd, token, text⟩ := spells.brace _ place kind
  have c_child : c ∈ braces.children := List.mem_of_getLast? isEnd
  -- the brace is the last child, so it stands behind the last name
  have behind : last.stop ≤ c.start := by
    obtain ⟨others, split⟩ := List.getLast?_eq_some_iff.mp isEnd
    have ordered := wf.inside.pairwise
    have listed := isChild
    rw [split] at ordered listed
    rcases List.mem_append.mp listed with among | same
    · exact (List.pairwise_append.mp ordered).2.2 last among c (by simp)
    · rw [List.mem_singleton.mp same, token] at specifier
      cases specifier
  obtain ⟨⟨upTo, back', whole', starts⟩, cut⟩ := spells.cut_within ⟨_, Node.child_mem_places place rfl c_child⟩
  obtain ⟨_, cwf, c_stop⟩ := wf.child c_child
  have c_le := cwf.le
  obtain ⟨after, brace, _⟩ := text_back whole' starts cut c_le
  rw [text] at brace
  obtain ⟨between, rfl, gap⟩ := Text.front_of_le (whole.symm.trans whole') (by omega)
  have long : Text.bytes (blank ++ [',']) = blank.bytes + 1 := by
    rw [Text.bytes_append]
    rfl
  have through : Text.bytes (blank ++ [',']) ≤ between.bytes := by
    by_contra short
    have within : between.bytes ≤ blank.bytes := by omega
    have same : between ++ back' = blank ++ ',' :: rest := by rw [← gap, follows]
    obtain ⟨more, rfl, tail⟩ := Text.front_of_le same within
    rw [brace] at tail
    cases more with
    | nil => exact absurd (List.cons.inj tail).1 (by decide)
    | cons x more =>
        have first : '\x7d' = x := (List.cons.inj tail).1
        have blank_x := List.all_eq_true.mp isBlank x (by simp)
        rw [← first] at blank_x
        exact absurd blank_x (by decide)
  rw [Text.bytes_append] at starts
  refine ⟨⟨front ++ (blank ++ [',']), rest, by simp [whole, follows], ?_⟩, by omega⟩
  rw [Text.bytes_append]
  omega

/-- Names are put in inside the braces. -/
theorem appendEdit_lies {braces : Node} (inside : Node.Within tree braces)
    (kind : braces.kind = .namedImports) (names : List String) :
    Edit.Inside source (appendEdit source braces names) ∧
      braces.start ≤ (appendEdit source braces names).start ∧
      (appendEdit source braces names).stop ≤ braces.stop := by
  have wf := within_wellFormed spells.wellFormed inside
  rcases appendEdit_cases source braces names with ⟨_, same⟩ | ⟨last, isLast, behind⟩
  · rw [same]
    exact ⟨spells.node_inside inside _, Nat.le_refl _, Nat.le_refl _⟩
  · have isChild := (specifier_mem (List.mem_of_getLast? isLast)).1
    obtain ⟨left, lwf, right⟩ := wf.child isChild
    have starts := Nat.le_trans left lwf.le
    rcases behind with same | ⟨blank, rest, comma, isBlank, same⟩
    · rw [same]
      exact ⟨insert_inside (spells.cut_within (inside.child isChild)).2 _, starts, right⟩
    · obtain ⟨cut, within⟩ := comma_le spells inside kind isLast comma isBlank
      rw [same]
      refine ⟨insert_inside cut _, ?_, within⟩
      show braces.start ≤ last.stop + blank.bytes + 1
      omega

/-- The imports of error helpers, with the names that they give. -/
def errorImports (s : Setting) (source : Text) (tree : Node) : List (Node × List Node) :=
  (importStatements tree).filterMap fun statement =>
    (errorImport? s source statement).map fun specs => (statement, specs)

omit spells in
theorem mem_errorImports {moved : Node × List Node} (listed : moved ∈ errorImports s source tree) :
    moved.1 ∈ importStatements tree ∧
      ∃ module ∈ s.config.deprecatedErrorModules, importSource? source moved.1 = some module := by
  obtain ⟨statement, isImport, made⟩ := List.mem_filterMap.mp listed
  obtain ⟨specs, found, rfl⟩ := Option.map_eq_some_iff.mp made
  obtain ⟨_, ⟨module, deprecated, _, names, _⟩, _⟩ := errorImport?_iff.mp found
  exact ⟨isImport, module, deprecated, names.isSource⟩

theorem removals_clear :
    (∀ e ∈ (errorImports s source tree).map (deletion source ·.1), Edit.Inside source e) ∧
      Edit.Clear ((errorImports s source tree).map (deletion source ·.1)) := by
  constructor
  · intro e listed
    obtain ⟨moved, moves, rfl⟩ := List.mem_map.mp listed
    exact (deletion_inside spells (importStatement_within (mem_errorImports moves).1)).1
  · have ordered : (errorImports s source tree).Pairwise fun a b => a.1.stop ≤ b.1.start := by
      refine (importStatements_ordered spells.wellFormed).filterMap _ ?_
      intro m n behind a found b found'
      obtain ⟨_, _, rfl⟩ := Option.map_eq_some_iff.mp found
      obtain ⟨_, _, rfl⟩ := Option.map_eq_some_iff.mp found'
      exact behind
    refine List.pairwise_map.mpr (ordered.imp_of_mem fun {a b} here there behind => ?_)
    exact keepsTo_clear spells (mem_errorImports here).1 (mem_errorImports there).1 behind
      ⟨Nat.le_refl _, Nat.le_refl _⟩ ⟨Nat.le_refl _, Nat.le_refl _⟩

omit spells in
/-- The braces of an import lie in it. -/
theorem braces_lie (wf : tree.WellFormed) {statement clause braces : Node}
    (isImport : statement ∈ importStatements tree) (isClause : importClause? statement = some clause)
    (named : namedImports? clause = some braces) :
    Node.Within tree braces ∧ braces.kind = .namedImports ∧ statement.start ≤ braces.start ∧
      braces.stop ≤ statement.stop := by
  have within := importStatement_within isImport
  have clause_child := importClause?_mem isClause
  have braces_child := namedImports?_mem named
  have found := List.find?_some named
  obtain ⟨clause_left, clause_wf, clause_right⟩ := (within_wellFormed wf within).child clause_child
  obtain ⟨braces_left, _, braces_right⟩ := clause_wf.child braces_child
  exact ⟨(within.child clause_child).child braces_child, eq_of_beq found,
    Nat.le_trans clause_left braces_left, Nat.le_trans braces_right clause_right⟩

/-- The import that takes the names is none of those that go. -/
theorem removal_append_clear (apart : s.config.unifiedModule ∉ s.config.deprecatedErrorModules)
    {braces : Node} (unified : unifiedBraces? s source tree = some braces) (names : List String) :
    Edit.Inside source (appendEdit source braces names) ∧ ∀ moved ∈ errorImports s source tree,
      ¬ (deletion source moved.1).Conflicts (appendEdit source braces names) := by
  obtain ⟨_, target, _, split, ⟨clause, isTarget⟩, _⟩ := unifiedBraces?_iff.mp unified
  have isImport : target ∈ importStatements tree := by simp [split]
  obtain ⟨within, kind, braces_left, braces_right⟩ :=
    braces_lie spells.wellFormed isImport isTarget.isClause isTarget.named
  obtain ⟨append_inside, left, right⟩ := appendEdit_lies spells within kind names
  refine ⟨append_inside, fun moved moves => ?_⟩
  obtain ⟨isImport', module', deprecated, isSource⟩ := mem_errorImports moves
  have other : moved.1 ≠ target := by
    intro same
    rw [same, isTarget.isSource] at isSource
    exact apart ((Option.some.inj isSource) ▸ deprecated)
  rcases deletion_avoids spells isImport' isImport other with before | behind
  · exact Edit.not_conflicts_of_le (by omega)
  · exact fun conflict => Edit.not_conflicts_of_le (by omega) conflict.symm

theorem errorImportEdits_clear (apart : s.config.unifiedModule ∉ s.config.deprecatedErrorModules) :
    (∀ e ∈ errorImportEdits s tree source, Edit.Inside source e) ∧
      Edit.Clear (errorImportEdits s tree source) := by
  obtain ⟨removals_inside, clear⟩ := removals_clear (s := s) spells
  unfold errorImportEdits
  cases unified : unifiedBraces? s source tree with
  | none => exact ⟨fun e listed => absurd listed List.not_mem_nil, List.Pairwise.nil⟩
  | some braces =>
      simp only
      split
      · exact ⟨removals_inside, clear⟩
      · generalize Merge.moved _ = names
        obtain ⟨append_inside, removal_clear⟩ := removal_append_clear spells apart unified names
        constructor
        · intro e listed
          rcases List.mem_append.mp listed with removal | append
          · exact removals_inside e removal
          · cases List.mem_singleton.mp append
            exact append_inside
        · refine List.pairwise_append.mpr ⟨clear, List.pairwise_singleton _ _, ?_⟩
          intro e listed f append
          cases List.mem_singleton.mp append
          obtain ⟨moved, moves, rfl⟩ := List.mem_map.mp listed
          exact removal_clear moved moves

end

/-! ## Calls on a client -/

theorem callPlaces_word {p : Place} (visited : p ∈ callPlaces tree) :
    p ∈ tree.allPlaces ∧ p.node.kind.isWord = true := by
  obtain ⟨inTree, plain⟩ := callPlaces_identifier visited
  rw [plain]
  exact ⟨inTree, rfl⟩

/-- The walk comes to one name behind the other. -/
theorem callPlaces_ordered (wf : tree.WellFormed) :
    (callPlaces tree).Pairwise fun p q => p.node.stop ≤ q.node.start := by
  have visits : (tree.places entersForCalls []).Pairwise fun p q =>
    q.Under p ∨ p.node.stop ≤ q.node.start := wf.places_ordered
  refine List.Pairwise.imp_of_mem (fun {p q} here there cases => ?_)
    (visits.filter (·.node.kind == .identifier))
  have p_word := (callPlaces_word here).2
  have q_in := (callPlaces_word there).1
  exact cases.resolve_left (wf.not_under_word q_in p_word)

/-- No node ends inside a word. -/
theorem anchor_clear (wf : tree.WellFormed) {n : Node} (inside : Node.Within tree n) {p : Place}
    (inTree : p ∈ tree.allPlaces) (isWord : p.node.kind.isWord) :
    n.stop ≤ p.node.start ∨ p.node.stop ≤ n.stop := by
  obtain ⟨above, place⟩ := inside
  have le := (wf.place place).2.1.le
  rcases wf.places_under inTree place with same | left | right | below | under
  · right
    rw [same]
  · right
    exact Nat.le_trans left le
  · exact Or.inl right
  · exact absurd below (wf.not_under_word place isWord)
  · exact Or.inr (wf.under_bytes inTree under).2

/-- Edits made for some names of a tree: none conflict, and each is put in at the end of a node or
replaces one of the names. -/
structure Woven (tree : Node) (seen : List Place) (edits : List Edit) : Prop where
  clear : Edit.Clear edits
  each : ∀ e ∈ edits, (e.start = e.stop ∧ ∃ n, Node.Within tree n ∧ e.start = n.stop) ∨
    ∃ p ∈ seen, e.start = p.node.start ∧ e.stop = p.node.stop

theorem Woven.more {seen : List Place} {edits : List Edit} (woven : Woven tree seen edits) (p : Place) :
    Woven tree (seen ++ [p]) edits where
  clear := woven.clear
  each := by
    intro e listed
    rcases woven.each e listed with anchored | ⟨q, q_seen, bytes⟩
    · exact Or.inl anchored
    · exact Or.inr ⟨q, List.mem_append_left _ q_seen, bytes⟩

/-- What is put in at the end of a node conflicts with no edit for a name. -/
theorem Woven.put (wf : tree.WellFormed) {seen : List Place} {edits : List Edit}
    (woven : Woven tree seen edits)
    (words : ∀ p ∈ seen, p ∈ tree.allPlaces ∧ p.node.kind.isWord = true) {e : Edit}
    (empty : e.start = e.stop) {n : Node} (inside : Node.Within tree n) (start : e.start = n.stop) :
    Woven tree seen (edits ++ [e]) where
  clear := by
    refine List.pairwise_append.mpr ⟨woven.clear, List.pairwise_singleton _ _, ?_⟩
    intro f listed e' last
    cases List.mem_singleton.mp last
    rintro ⟨early, late⟩
    rcases woven.each f listed with ⟨empty', _⟩ | ⟨p, p_seen, p_start, p_stop⟩
    · omega
    · obtain ⟨inTree, isWord⟩ := words p p_seen
      rcases anchor_clear wf inside inTree isWord with before | behind
      · omega
      · omega
  each := by
    intro f listed
    rcases List.mem_append.mp listed with before | last
    · exact woven.each f before
    · cases List.mem_singleton.mp last
      exact Or.inl ⟨empty, n, inside, start⟩

/-- A name behind those seen is replaced. -/
theorem Woven.replace (wf : tree.WellFormed) {seen : List Place} {edits : List Edit}
    (woven : Woven tree seen edits) {p : Place} (inTree : p ∈ tree.allPlaces)
    (isWord : p.node.kind.isWord) (behind : ∀ q ∈ seen, q.node.stop ≤ p.node.start) (text : Text) :
    Woven tree (seen ++ [p]) (edits ++ [⟨p.node.start, p.node.stop, text⟩]) where
  clear := by
    refine List.pairwise_append.mpr ⟨woven.clear, List.pairwise_singleton _ _, ?_⟩
    intro f listed e last
    cases List.mem_singleton.mp last
    rintro ⟨early, late⟩
    have early' : f.start < p.node.stop := early
    have late' : p.node.start < f.stop := late
    rcases woven.each f listed with ⟨empty, n, inside, start⟩ | ⟨q, q_seen, _, q_stop⟩
    · rcases anchor_clear wf inside inTree isWord with before | after
      · omega
      · omega
    · have gap := behind q q_seen
      omega
  each := by
    intro f listed
    rcases List.mem_append.mp listed with before | last
    · exact (woven.more p).each f before
    · cases List.mem_singleton.mp last
      exact Or.inr ⟨p, by simp, rfl, rfl⟩

/-- One place of the walk. -/
theorem Woven.redirect (wf : tree.WellFormed) {seen : List Place} {c : Clients}
    (woven : Woven tree seen c.edits)
    (words : ∀ p ∈ seen, p ∈ tree.allPlaces ∧ p.node.kind.isWord = true) {p : Place}
    (inTree : p ∈ tree.allPlaces) (isWord : p.node.kind.isWord)
    (behind : ∀ q ∈ seen, q.node.stop ≤ p.node.start) :
    Woven tree (seen ++ [p]) (redirect s source c p).edits := by
  rcases @redirect_cases s source c p with
    ⟨_, same⟩ | ⟨_, text, _, grown⟩ | ⟨d, e, declares, grown⟩
  · rw [same]
    exact woven.more p
  · rw [grown]
    exact woven.replace wf inTree isWord behind text
  · rw [grown]
    obtain ⟨empty, anchor, isChild, _, start⟩ := declarationEdit?_anchor declares.edit
    have body := (bodyAround?_within inTree declares.around).1
    exact (woven.put wf words empty (body.child isChild) start).replace wf inTree isWord behind _

/-- The whole walk. -/
theorem Woven.foldl (wf : tree.WellFormed) : ∀ (ps : List Place) {seen : List Place} {c : Clients},
    Woven tree seen c.edits →
    (∀ p ∈ seen ++ ps, p ∈ tree.allPlaces ∧ p.node.kind.isWord = true) →
    (seen ++ ps).Pairwise (fun p q => p.node.stop ≤ q.node.start) →
    Woven tree (seen ++ ps) (ps.foldl (Codemod.redirect s source) c).edits
  | [], seen, c, woven, _, _ => by
      rw [List.append_nil]
      exact woven
  | p :: ps, seen, c, woven, words, ordered => by
      obtain ⟨inTree, isWord⟩ := words p (by simp)
      have behind (q : Place) (listed : q ∈ seen) : q.node.stop ≤ p.node.start :=
        (List.pairwise_append.mp ordered).2.2 q listed p List.mem_cons_self
      have step : Woven tree (seen ++ [p]) (Codemod.redirect s source c p).edits :=
        woven.redirect wf (fun q listed => words q (List.mem_append_left _ listed)) inTree isWord behind
      have split : seen ++ p :: ps = seen ++ [p] ++ ps := by simp
      rw [split] at words ordered ⊢
      exact Woven.foldl wf ps step words ordered

theorem callSiteEdits_clear (spells : Spells source tree) :
    (∀ e ∈ callSiteEdits s tree source, Edit.Inside source e) ∧
      Edit.Clear (callSiteEdits s tree source) := by
  have wf := spells.wellFormed
  unfold callSiteEdits redirected
  split
  · have start : Woven tree [] ({} : Clients).edits :=
      ⟨List.Pairwise.nil, fun e listed => absurd listed List.not_mem_nil⟩
    have woven : Woven tree (callPlaces tree) ((callPlaces tree).foldl (redirect s source) {}).edits :=
      Woven.foldl wf (callPlaces tree) start (fun p visited => callPlaces_word visited)
        (callPlaces_ordered wf)
    refine ⟨fun e listed => ?_, woven.clear⟩
    rcases woven.each e listed with ⟨empty, n, inside, start⟩ | ⟨p, visited, start, stop⟩
    · have cut := (spells.cut_within inside).2
      exact ⟨Nat.le_of_eq empty, start ▸ cut, empty ▸ start ▸ cut⟩
    · obtain ⟨cut, cut'⟩ := spells.cut p (callPlaces_word visited).1
      have le := (wf.place (callPlaces_word visited).1).2.1.le
      exact ⟨by omega, start ▸ cut, stop ▸ cut'⟩
  · exact ⟨fun e listed => absurd listed List.not_mem_nil, List.Pairwise.nil⟩

/-! ## Literals -/

/-- The walk for paths does not go into a literal, so what it comes to next begins behind it. -/
theorem literals_ordered (wf : tree.WellFormed) :
    (tree.places entersForPaths []).Pairwise fun p q =>
      isLiteral p.node → p.node.stop ≤ q.node.start := by
  have visits : (tree.places entersForPaths []).Pairwise fun p q =>
    q.Under p ∨ p.node.stop ≤ q.node.start := wf.places_ordered
  refine visits.imp_of_mem fun {p q} _ there cases literal => cases.resolve_left ?_
  rintro ⟨through, chain⟩
  have entered := (Node.mem_places_iff_enters.mp there).2 p.node (by simp [chain])
  simp [entersForPaths, literal] at entered

theorem pathEdits_clear (spells : Spells source tree) (config : Config) :
    (∀ e ∈ pathEdits config tree source, Edit.Inside source e) ∧
      Edit.Clear (pathEdits config tree source) := by
  have wf := spells.wellFormed
  constructor
  · intro e listed
    obtain ⟨_, p, form, edit⟩ := mem_pathEdits.mp listed
    rw [literalEdit?_bytes edit]
    exact spells.node_inside ⟨p.above, (Node.mem_places_iff_enters.mp form.visited).1⟩ _
  · unfold pathEdits
    split
    · refine List.pairwise_filterMap.mpr ((literals_ordered wf).imp fun {p q} ordered => ?_)
      intro e here f further
      split at here
      · rename_i form
        split at further
        · simp only [Bool.and_eq_true] at form
          rw [literalEdit?_bytes here, literalEdit?_bytes further]
          exact Edit.not_conflicts_of_le (ordered form.1)
        · cases further
      · cases here
    · exact List.Pairwise.nil

/-! ## Calls of the accessor -/

/-- A call of the accessor that is replaced stands inside another one. -/
def NestsCalls (s : Setting) (source : Text) (tree : Node) : Prop :=
  ∃ p ∈ callPlaces tree, ∃ q ∈ callPlaces tree, isAccessorCall s source p = true ∧
    isAccessorCall s source q = true ∧ q ≠ p ∧ ∃ call up, p.above = call :: up ∧ q.Under ⟨call, up⟩

theorem isAccessorCall_cases {p : Place} (acts : isAccessorCall s source p = true) :
    ∃ call up, p.above = call :: up ∧ p.node.plays .function = true := by
  simp only [isAccessorCall, Bool.and_eq_true] at acts
  obtain ⟨call, up, _, above, _, plays, _⟩ := bareCall_cases acts.1.2
  exact ⟨call, up, above, plays⟩

/-- The edit for a place of the walk. -/
def accessorEdit? (s : Setting) (source : Text) (p : Place) : Option Edit :=
  if isAccessorCall s source p then
    p.parent?.map fun call => ⟨call.start, call.stop, (s.factoryCall .auth).toList⟩
  else none

theorem accessorEdit?_iff {p : Place} {e : Edit} : accessorEdit? s source p = some e ↔
    isAccessorCall s source p = true ∧ ∃ call up, p.above = call :: up ∧
      p.node.plays .function = true ∧ e = ⟨call.start, call.stop, (s.factoryCall .auth).toList⟩ := by
  unfold accessorEdit?
  constructor
  · intro made
    split at made
    · rename_i acts
      obtain ⟨call, up, above, plays⟩ := isAccessorCall_cases acts
      rw [Place.parent?, above] at made
      exact ⟨acts, call, up, above, plays, (Option.some.inj made).symm⟩
    · cases made
  · rintro ⟨acts, call, up, above, _, rfl⟩
    rw [if_pos acts, Place.parent?, above]
    rfl

section

variable (spells : Spells source tree) {p q : Place} {m n : Node} {up up' : List Node}
include spells

/-- A call has more bytes than none, since the name of its function has. -/
theorem call_long (visited : p ∈ callPlaces tree) (above : p.above = m :: up) :
    ⟨m, up⟩ ∈ tree.allPlaces ∧ p.node ∈ m.children ∧ m.start < m.stop := by
  have wf := spells.wellFormed
  obtain ⟨inTree, isWord⟩ := callPlaces_word visited
  obtain ⟨parent, isChild⟩ := Node.parent_mem_allPlaces inTree above
  obtain ⟨left, pwf, right⟩ := (wf.place parent).2.1.child isChild
  have long := (pwf.word isWord).1
  refine ⟨parent, isChild, ?_⟩
  have left' : m.start ≤ p.node.start := left
  have right' : p.node.stop ≤ m.stop := right
  omega

/-- The functions of one call are one place. -/
theorem function_unique (visited : p ∈ callPlaces tree) (visited' : q ∈ callPlaces tree)
    (above : p.above = m :: up) (above' : q.above = m :: up) (plays : p.node.plays .function = true)
    (plays' : q.node.plays .function = true) : p = q := by
  obtain ⟨p_in, p_word⟩ := callPlaces_word visited
  obtain ⟨q_in, q_word⟩ := callPlaces_word visited'
  exact spells.wellFormed.parent_unique p_in q_in p_word q_word above above' plays plays' rfl rfl

/-- A call inside another one has its bytes there. -/
theorem nested_bytes (visited : p ∈ callPlaces tree) (visited' : q ∈ callPlaces tree)
    (above : p.above = m :: up) (above' : q.above = n :: up') (plays : p.node.plays .function = true)
    (plays' : q.node.plays .function = true) (other : q ≠ p) (under : q.Under ⟨m, up⟩) :
    m.start ≤ n.start ∧ n.stop ≤ m.stop := by
  obtain ⟨through, chain⟩ := under
  rw [above'] at chain
  cases through with
  | nil =>
      cases chain
      exact absurd (function_unique spells visited' visited above' above plays' plays) other
  | cons first through =>
      obtain ⟨rfl, chain'⟩ := List.cons_eq_cons.mp chain
      have inside : (⟨n, up'⟩ : Place).Under ⟨m, up⟩ := ⟨through, chain'⟩
      exact spells.wellFormed.under_bytes (call_long spells visited' above').1 inside

/-- The edits for the calls of the accessor conflict exactly if one stands inside another. -/
theorem accessorCalls_clear_iff :
    Edit.Clear ((callPlaces tree).filterMap (accessorEdit? s source)) ↔ ¬ NestsCalls s source tree := by
  have wf := spells.wellFormed
  rw [Edit.Clear, List.pairwise_filterMap]
  constructor
  · rintro clear ⟨p, visited, q, visited', acts, acts', other, m, up, above, under⟩
    obtain ⟨n, up', above', plays'⟩ := isAccessorCall_cases acts'
    obtain ⟨_, _, above'', plays⟩ := isAccessorCall_cases acts
    have made := accessorEdit?_iff.mpr ⟨acts, m, up, above, plays, rfl⟩
    have made' := accessorEdit?_iff.mpr ⟨acts', n, up', above', plays', rfl⟩
    have symmetric : Std.Symm fun p q => ∀ e, accessorEdit? s source p = some e →
        ∀ f, accessorEdit? s source q = some f → ¬ e.Conflicts f :=
      ⟨fun _ _ clear' e made f made' conflict => clear' f made' e made conflict.symm⟩
    have apart := clear.forall visited visited' other.symm
    have bytes := nested_bytes spells visited visited' above above' plays plays' other under
    have long := (call_long spells visited' above').2.2
    refine apart _ made _ made' ⟨?_, ?_⟩
    · show m.start < n.stop
      omega
    · show n.start < m.stop
      omega
  · intro single
    refine (callPlaces_ordered wf).imp_of_mem fun {p q} visited visited' behind => ?_
    intro e made f made'
    obtain ⟨acts, m, up, above, plays, rfl⟩ := accessorEdit?_iff.mp made
    obtain ⟨acts', n, up', above', plays', rfl⟩ := accessorEdit?_iff.mp made'
    have other : q ≠ p := by
      rintro rfl
      obtain ⟨inTree, isWord⟩ := callPlaces_word visited
      have long := ((wf.place inTree).2.1.word isWord).1
      omega
    obtain ⟨m_in, _, _⟩ := call_long spells visited above
    obtain ⟨n_in, _, _⟩ := call_long spells visited' above'
    rcases wf.places_under m_in n_in with same | left | right | ⟨through, chain⟩ | ⟨through, chain⟩
    · cases same
      exact absurd (function_unique spells visited visited' above above' plays plays') other.symm
    · exact Edit.not_conflicts_of_le left
    · exact fun conflict => Edit.not_conflicts_of_le right conflict.symm
    · have chain' : up' = through ++ m :: up := chain
      exact absurd ⟨p, visited, q, visited', acts, acts', other, m, up, above, n :: through,
        by rw [above', chain']; rfl⟩ single
    · have chain' : up = through ++ n :: up' := chain
      exact absurd ⟨q, visited', p, visited, acts', acts, other.symm, n, up', above', m :: through,
        by rw [above, chain']; rfl⟩ single

theorem accessorEdits_clear_iff (s : Setting) :
    (∀ e ∈ accessorEdits s tree source, Edit.Inside source e) ∧
      (Edit.Clear (accessorEdits s tree source) ↔
        ¬ (s.bindings.replaces .accessor = true ∧ NestsCalls s source tree)) := by
  have edits_eq : accessorEdits s tree source =
      if s.bindings.replaces .accessor then (callPlaces tree).filterMap (accessorEdit? s source)
      else [] := rfl
  rw [edits_eq]
  split
  · rename_i replaces
    refine ⟨fun e listed => ?_, ?_⟩
    · obtain ⟨p, visited, edit⟩ := List.mem_filterMap.mp listed
      obtain ⟨_, call, up, above, _, rfl⟩ := accessorEdit?_iff.mp edit
      exact spells.node_inside ⟨up, (call_long spells visited above).1⟩ _
    · rw [replaces]
      simpa using accessorCalls_clear_iff spells
  · rename_i idle
    exact ⟨fun e listed => absurd listed List.not_mem_nil, fun _ active => idle active.1,
      fun _ => List.Pairwise.nil⟩

end

/-! ## All rules -/

/-- The calls of the accessor are to be replaced, and one stands inside another. -/
def ReplacesNested (s : Setting) (source : Text) (tree : Node) (rule : Rule) : Prop :=
  rule = .authAccessor ∧ s.bindings.replaces .accessor = true ∧ NestsCalls s source tree

theorem rule_clear_iff (spells : Spells source tree) (s : Setting)
    (apart : s.config.unifiedModule ∉ s.config.deprecatedErrorModules) (rule : Rule) :
    (∀ e ∈ rule.edits s tree source, Edit.Inside source e) ∧
      (Edit.Clear (rule.edits s tree source) ↔ ¬ ReplacesNested s source tree rule) := by
  have always {edits : List Edit} (other : rule ≠ .authAccessor)
      (clear : (∀ e ∈ edits, Edit.Inside source e) ∧ Edit.Clear edits) :
      (∀ e ∈ edits, Edit.Inside source e) ∧
        (Edit.Clear edits ↔ ¬ ReplacesNested s source tree rule) :=
    ⟨clear.1, fun _ nested => other nested.1, fun _ => clear.2⟩
  cases rule with
  | defaultImport =>
      have trims {pending : Bool} {statement : Node} {r : StatementEdits}
          (made : defaultStatement s source tree pending statement = some r) :
          ∃ t, Trims s source s.bindings.isDroppable (fun _ => false) statement t r := by
        obtain ⟨t, trims, _⟩ := defaultStatement_trims made
        exact ⟨t, trims⟩
      exact always (by decide) (statementEdits_clear spells trims true)
  | namedImport =>
      have trims {pending : Bool} {statement : Node} {r : StatementEdits}
          (made : namedStatement s source tree pending statement = some r) :
          ∃ t, Trims s source (fun _ => false) (dropsSpecifier s source) statement t r := by
        obtain ⟨t, trims, _⟩ := namedStatement_trims made
        exact ⟨t, trims⟩
      exact always (by decide) (statementEdits_clear spells trims true)
  | callSites => exact always (by decide) (callSiteEdits_clear spells)
  | authAccessor =>
      obtain ⟨inside, clear_iff⟩ := accessorEdits_clear_iff spells s
      exact ⟨inside, by simpa [ReplacesNested, Rule.edits] using clear_iff⟩
  | versionPrefix => exact always (by decide) (pathEdits_clear spells s.config)
  | errorImport => exact always (by decide) (errorImportEdits_clear spells apart)

/-- A run fails for edits that overlap exactly where it is to replace nested calls of the accessor. -/
theorem migrateWith_overlap_iff {read : Reader} {config : Config} {path : Path}
    (law : ∀ {markup t tree}, read markup t = .ok tree → Spells t tree)
    (apart : config.unifiedModule ∉ config.deprecatedErrorModules) :
    (∃ rule offset, migrateWith read config path source = .error (.overlap rule offset)) ↔
      ∃ rule s d, Reached read config path source rule s d ∧ ReplacesNested s d.text d.tree rule := by
  have made_iff {rule : Rule} {s : Setting} {d : Draft}
      (reached : Reached read config path source rule s d) :
      (∀ e ∈ rule.edits s d.tree d.text, Edit.Inside d.text e) ∧
        (Edit.Clear (rule.edits s d.tree d.text) ↔ ¬ ReplacesNested s d.text d.tree rule) :=
    rule_clear_iff (law reached.reads) s (by rw [reached.config_eq]; exact apart) rule
  constructor
  · rintro ⟨name, offset, failed⟩
    generalize failure : Failure.overlap name offset = f at failed
    cases migrateWith_error_iff.mp failed with
    | unreadable _ refused =>
        have unreadable := (treeOf_error refused).1
        rw [← failure] at unreadable
        cases unreadable
    | @edits rule s d e reached made =>
        refine ⟨rule, s, d, reached, ?_⟩
        by_contra single
        obtain ⟨inside, clear_iff⟩ := made_iff reached
        obtain ⟨text, made'⟩ := (Edit.apply_ok_iff inside).mpr (clear_iff.mpr single)
        rw [rewritten, made'] at made
        cases made
    | output _ _ _ _ => cases failure
  · rintro ⟨rule, s, d, reached, nested⟩
    obtain ⟨inside, clear_iff⟩ := made_iff reached
    have conflict : ¬ Edit.Clear (rule.edits s d.tree d.text) := fun clear => clear_iff.mp clear nested
    obtain ⟨_, _, f, _, _, _, _, refused⟩ := Edit.apply_overlap inside conflict
    exact ⟨rule.name, f.start, migrateWith_error_iff.mpr (.edits reached refused)⟩

/-- A module that calls the accessor in the type arguments of a call of the accessor. -/
def nestedCall : Text :=
  ("import \x7b getAuthClient \x7d from '@/lib/api';\n" ++
    "getAuthClient<\x7b [getAuthClient()]: string \x7d>();\n").toList

def nestedSetting (tree : Node) : Setting := settingOf {} .default nestedCall tree

/-- Whether the module reads as a tree of its text for which the calls cannot be replaced. -/
def refusesNestedCall : Bool :=
  match Script.parse (hasMarkup ⟨"a.ts"⟩) nestedCall with
  | .ok tree => decide (Spells nestedCall tree ∧
      Edit.apply nestedCall (Rule.edits (nestedSetting tree) tree nestedCall .authAccessor) =
        .error (.overlap 60))
  | .error _ => false

theorem nestedCall_refused : ∃ tree, Script.parse (hasMarkup ⟨"a.ts"⟩) nestedCall = .ok tree ∧
    Spells nestedCall tree ∧
    Edit.apply nestedCall (Rule.edits (nestedSetting tree) tree nestedCall .authAccessor) =
      .error (.overlap 60) := by
  have checked : refusesNestedCall = true := by decide +kernel
  unfold refusesNestedCall at checked
  split at checked
  · rename_i tree reads
    exact ⟨tree, reads, of_decide_eq_true checked⟩
  · cases checked

end ClientMigration.Codemod
