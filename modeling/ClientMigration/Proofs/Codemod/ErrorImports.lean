/-
# Proofs.Codemod.ErrorImports -- error helpers come together in one import

All imports of error helpers that can go give their names to one import from the
unified module, each name once (`added_once`). What the rule puts into the text
depends on how the list in the braces ends; whichever way, the braces hold a list
again, of the names that were there and of those that came (`appendEdit_makesList`).

The imports that go stand apart from the one that takes the names, so the change
is made in its text (`error_imports_merged`).
-/
import ClientMigration.Proofs.Codemod.ClearEdits
import ClientMigration.Proofs.Script.NameList

namespace ClientMigration.Codemod

set_option autoImplicit false

open Script

variable {s : Setting} {source : Text} {tree : Node}

/-! ## The imports that go -/

/-- The import goes once some import can take its names. -/
def Goes (s : Setting) (source : Text) (statement : Node) : Prop :=
  ∃ braces, TakesHelpers s source statement braces

theorem goes_iff {statement : Node} :
    Goes s source statement ↔ (errorImport? s source statement).isSome = true := by
  rw [Option.isSome_iff_exists]
  constructor
  · rintro ⟨braces, takes⟩
    exact ⟨specifiers braces, errorImport?_iff.mpr ⟨braces, takes, rfl⟩⟩
  · rintro ⟨specs, found⟩
    obtain ⟨braces, takes, _⟩ := errorImport?_iff.mp found
    exact ⟨braces, takes⟩

instance (s : Setting) (source : Text) (statement : Node) : Decidable (Goes s source statement) :=
  decidable_of_iff _ goes_iff.symm

theorem errorImports_goes : (errorImports s source tree).map Prod.fst =
    (importStatements tree).filter (Goes s source) := by
  unfold errorImports
  induction importStatements tree with
  | nil => rfl
  | cons m ms rest =>
      rw [List.filterMap_cons, List.filter_cons]
      simp only [goes_iff, decide_eq_true_eq]
      cases errorImport? s source m with
      | none => simpa [goes_iff] using rest
      | some specs => simpa [goes_iff] using rest

theorem errorImports_specifiers : (errorImports s source tree).flatMap Prod.snd =
    ((importStatements tree).filter (Goes s source)).flatMap importedSpecifiers := by
  rw [← errorImports_goes, List.flatMap_map]
  refine List.flatMap_congr fun moved moves => ?_
  obtain ⟨statement, _, made⟩ := List.mem_filterMap.mp moves
  obtain ⟨specs, found, rfl⟩ := Option.map_eq_some_iff.mp made
  obtain ⟨braces, ⟨_, _, clause, names, _⟩, rfl⟩ := errorImport?_iff.mp found
  simp [importedSpecifiers, names.isClause, names.named]

/-! ## The braces -/

/-- The node's text is a list of its specifiers in braces, each where it stands. -/
def HoldsList (source : Text) (braces : Node) : Prop :=
  ∃ inner, braces.text source = '\x7b' :: (inner ++ ['\x7d']) ∧
    Lists (braces.start + 1) ((specifiers braces).map fun n => (n.start, n.text source)) inner

theorem mergedNames_toList (source : Text) (front back : String) (specs : List Node) :
    (front ++ ", ".intercalate (specs.map (·.name source)) ++ back).toList =
      front.toList ++ (withCommas (specs.map (·.text source)) ++ back.toList) := by
  have texts : (specs.map (·.name source)).map String.toList = specs.map (·.text source) := by
    simp [Node.name]
  simp [withCommas, texts]

/-- The last name of the list is the last specifier, so it ends where that does. -/
theorem last_stop (spells : Spells source tree) {braces last : Node} (inside : Node.Within tree braces)
    (isLast : (specifiers braces).getLast? = some last) {others : List (Nat × Text)}
    {first name : Text} (split : (specifiers braces).map (fun n => (n.start, n.text source)) =
      others ++ [(braces.start + 1 + first.bytes, name)]) :
    last.stop = braces.start + Text.bytes ('\x7b' :: (first ++ name)) := by
  obtain ⟨before, split'⟩ := List.getLast?_eq_some_iff.mp isLast
  rw [split', List.map_append] at split
  obtain ⟨_, same⟩ := List.append_inj' split rfl
  obtain ⟨start, text⟩ := Prod.mk.inj (List.cons.inj same).1
  obtain ⟨_, _, _, starts, stops⟩ :=
    spells.node_split (inside.child (specifier_mem (List.mem_of_getLast? isLast)).1)
  rw [Text.bytes_append, starts, start, text] at stops
  have brace : ('\x7b' : Char).utf8Size = 1 := rfl
  simp only [Text.bytes, Text.bytes_append]
  omega

/-- The edit changes the node's text, which is not empty, to a list of the texts in braces. -/
def MakesList (source : Text) (braces : Node) (texts : List Text) (e : Edit) : Prop :=
  ∃ (part gone rest inner : Text) (names : List (Nat × Text)),
    braces.text source = part ++ (gone ++ rest) ∧ e.start = braces.start + part.bytes ∧
    e.stop = braces.start + (part ++ gone).bytes ∧ part ++ gone ≠ [] ∧ gone ++ rest ≠ [] ∧
    part ++ (e.text ++ rest) = '\x7b' :: (inner ++ ['\x7d']) ∧ Lists (braces.start + 1) names inner ∧
    names.map Prod.snd = texts

section

variable (spells : Spells source tree) {braces last : Node} {specs : List Node}
  (inside : Node.Within tree braces) (holds : HoldsList source braces)
include spells inside holds

theorem fill_makesList (some_specs : specs ≠ []) (empty : specifiers braces = []) :
    MakesList source braces ((specifiers braces ++ specs).map (·.text source))
      ⟨braces.start, braces.stop,
        ("\x7b " ++ ", ".intercalate (specs.map (·.name source)) ++ " \x7d").toList⟩ := by
  obtain ⟨inner, text, _⟩ := holds
  obtain ⟨_, _, _, starts, stops⟩ := spells.node_split inside
  rw [Text.bytes_append] at stops
  have some_texts : specs.map (·.text source) ≠ [] := by simpa using some_specs
  obtain ⟨names, texts, lists⟩ := lists_withCommas (Or.inl isGap_space) (braces.start + 1) some_texts
  refine ⟨[], braces.text source, [], _, names, by simp, rfl, ?_, ?_, ?_, ?_, lists, ?_⟩
  · show braces.stop = _
    rw [List.nil_append]
    omega
  · simp [text]
  · simp [text]
  · rw [mergedNames_toList]
    simp
  · rw [texts, empty]
    rfl

/-- Behind the last specifier, and behind a comma there, other specifiers can stand. -/
theorem holds_append (some_specs : specs ≠ []) (isLast : (specifiers braces).getLast? = some last) :
    ∃ front tail : Text, braces.text source = '\x7b' :: (front ++ (tail ++ ['\x7d'])) ∧
      last.stop = braces.start + Text.bytes ('\x7b' :: front) ∧ EndsList tail ∧
      (∃ names, Lists (braces.start + 1) names
          (front ++ ',' :: ' ' :: (withCommas (specs.map (·.text source)) ++ tail)) ∧
        names.map Prod.snd = (specifiers braces ++ specs).map (·.text source)) ∧
      ∀ gap gap' : Text, IsGap gap → IsGap gap' → ∃ names, Lists (braces.start + 1) names
          (front ++ (gap ++ ',' :: ' ' :: (withCommas (specs.map (·.text source)) ++ gap'))) ∧
        names.map Prod.snd = (specifiers braces ++ specs).map (·.text source) := by
  obtain ⟨inner, text, lists⟩ := holds
  have some_texts : specs.map (·.text source) ≠ [] := by simpa using some_specs
  have some_names : (specifiers braces).map (fun n => (n.start, n.text source)) ≠ [] := by
    rw [Ne, List.map_eq_nil_iff]
    intro none
    rw [none] at isLast
    cases isLast
  obtain ⟨others, front, name, tail, split, rfl, ends, ⟨more, texts, lists'⟩, behindComma⟩ :=
    lists_append lists some_names some_texts
  have joins {more : List (Nat × Text)} (texts : more.map Prod.snd = specs.map (·.text source)) :
      ((specifiers braces).map (fun n => (n.start, n.text source)) ++ more).map Prod.snd =
        (specifiers braces ++ specs).map (·.text source) := by
    simp [texts]
  refine ⟨front ++ name, tail, by simp [text], last_stop spells inside isLast split, ends,
    ⟨_, ?_, joins texts⟩, fun gap gap' isGap isGap' => ?_⟩
  · rw [List.append_assoc]
    exact lists'
  · obtain ⟨more', texts', lists''⟩ := behindComma gap gap' isGap isGap'
    refine ⟨_, ?_, joins texts'⟩
    rw [List.append_assoc]
    exact lists''

theorem behindLast_makesList (some_specs : specs ≠ [])
    (isLast : (specifiers braces).getLast? = some last) :
    MakesList source braces ((specifiers braces ++ specs).map (·.text source))
      (.insert last.stop (", " ++ ", ".intercalate (specs.map (·.name source))).toList) := by
  obtain ⟨front, tail, text, ends_at, _, ⟨names, lists, texts⟩, _⟩ :=
    holds_append spells inside holds some_specs isLast
  have made := mergedNames_toList source ", " "" specs
  rw [String.append_empty] at made
  refine ⟨'\x7b' :: front, [], tail ++ ['\x7d'], _, names, text, ends_at, ?_, by simp, by simp, ?_, lists,
    texts⟩
  · rw [List.append_nil]
    exact ends_at
  · simp [Edit.insert, made]

/-- Where a comma follows the last specifier, it does so in the list: a brace is no comma, and no comment
stands in front of it. -/
theorem behindComma_makesList (some_specs : specs ≠ [])
    (isLast : (specifiers braces).getLast? = some last) {blank rest : Text}
    (comma : source.dropBytes? last.stop = some (blank ++ ',' :: rest))
    (isBlank : blank.all Text.isBlank = true) :
    MakesList source braces ((specifiers braces ++ specs).map (·.text source))
      (.insert (last.stop + blank.bytes + 1)
        (" " ++ ", ".intercalate (specs.map (·.name source))).toList) := by
  obtain ⟨front, tail, text, ends_at, ends, _, behindComma⟩ :=
    holds_append spells inside holds some_specs isLast
  obtain ⟨before, back, whole, starts, _⟩ := spells.node_split inside
  have follows : tail ++ '\x7d' :: back = blank ++ ',' :: rest := by
    have parts : source = (before ++ '\x7b' :: front) ++ (tail ++ '\x7d' :: back) := by
      rw [whole, text]
      simp
    rw [parts, ends_at, ← starts, ← Text.bytes_append, Text.dropBytes?_append] at comma
    exact Option.some.inj comma
  rcases ends with isGap | ⟨gap, gap', isGap, isGap', rfl⟩
  · obtain ⟨_, wrong, _⟩ := gap_unique isGap isBlank (by decide) follows
    cases wrong
  · rw [List.append_assoc, List.cons_append] at follows
    obtain ⟨rfl, _, rfl⟩ := gap_unique isGap isBlank (by decide) follows
    obtain ⟨names, lists, texts⟩ := behindComma gap gap' isGap isGap'
    have made := mergedNames_toList source " " "" specs
    rw [String.append_empty] at made
    have place : last.stop + gap.bytes + 1 =
        braces.start + Text.bytes ('\x7b' :: (front ++ (gap ++ [',']))) := by
      have comma : (',' : Char).utf8Size = 1 := rfl
      rw [ends_at]
      simp only [Text.bytes, Text.bytes_append]
      omega
    refine ⟨'\x7b' :: (front ++ (gap ++ [','])), [], gap' ++ ['\x7d'], _, names, by simp [text], place,
      ?_, by simp, by simp, ?_, lists, texts⟩
    · rw [List.append_nil]
      exact place
    · simp [Edit.insert, made]

/-- Whatever the list in the braces ends with, the edit makes a list of it to which the names have come. -/
theorem appendEdit_makesList (some_specs : specs ≠ []) :
    MakesList source braces ((specifiers braces ++ specs).map (·.text source))
      (appendEdit source braces (specs.map (·.name source))) := by
  rcases appendEdit_cases source braces (specs.map (·.name source)) with
    ⟨empty, same⟩ | ⟨last, isLast, same | ⟨blank, rest, comma, isBlank, same⟩⟩
  · rw [same]
    exact fill_makesList spells inside holds some_specs empty
  · rw [same]
    exact behindLast_makesList spells inside holds some_specs isLast
  · rw [same]
    exact behindComma_makesList spells inside holds some_specs isLast comma isBlank

end

/-! ## The import that takes the names -/

/-- A node's text in parts, one of them the text of a node whose bytes lie in it. -/
theorem Spells.text_within (spells : Spells source tree) {m n : Node} (m_inside : Node.Within tree m)
    (n_inside : Node.Within tree n) (left : m.start ≤ n.start) (right : n.stop ≤ m.stop) :
    ∃ lead back, m.text source = lead ++ (n.text source ++ back) ∧ n.start = m.start + lead.bytes := by
  obtain ⟨front, rest, whole, starts, stops⟩ := spells.node_split m_inside
  obtain ⟨front', rest', whole', starts', stops'⟩ := spells.node_split n_inside
  obtain ⟨lead, rfl, follows⟩ := Text.front_of_le (whole.symm.trans whole') (by omega)
  rw [← List.append_assoc] at follows
  rw [Text.bytes_append] at stops starts'
  have longer : Text.bytes (lead ++ n.text source) ≤ (m.text source).bytes := by
    simp only [Text.bytes_append] at stops' ⊢
    omega
  obtain ⟨back, text, _⟩ := Text.front_of_le follows.symm longer
  exact ⟨lead, back, by rw [text, List.append_assoc], by omega⟩

/-- The edits leave the text of an import, in which the braces come to hold a list of the texts. -/
def Receives (source : Text) (target braces : Node) (edits : List Edit) (texts : List Text) : Prop :=
  ∃ (lead back before inner behind : Text) (names : List (Nat × Text)),
    target.text source = lead ++ (braces.text source ++ back) ∧
    braces.start = target.start + lead.bytes ∧
    Edit.apply source edits =
      .ok (before ++ (lead ++ '\x7b' :: (inner ++ '\x7d' :: back)) ++ behind) ∧
    Lists ((before ++ lead).bytes + 1) names inner ∧ names.map Prod.snd = texts

section

variable (spells : Spells source tree) {target braces : Node} {edits : List Edit}
  (isImport : target ∈ importStatements tree) (within : Node.Within tree braces)
  (left : target.start ≤ braces.start) (right : braces.stop ≤ target.stop)
include spells isImport within left right

theorem receives_nothing (holds : HoldsList source braces)
    (inside : ∀ e ∈ edits, Edit.Inside source e) (clear : Edit.Clear edits)
    (avoids : ∀ e ∈ edits, e.Avoids target.start target.stop) :
    Receives source target braces edits ((specifiers braces).map (·.text source)) := by
  obtain ⟨inner, text, lists⟩ := holds
  obtain ⟨lead, back, whole, starts⟩ :=
    spells.text_within (importStatement_within isImport) within left right
  obtain ⟨front, rest, split, front_bytes, through_bytes⟩ :=
    spells.node_split (importStatement_within isImport)
  rw [← front_bytes, ← through_bytes] at avoids
  have some_text : target.text source ≠ [] := by simp [whole, text]
  obtain ⟨before, behind, made⟩ := Edit.apply_avoiding some_text (split ▸ inside) clear avoids
  obtain ⟨names, texts, moved⟩ := lists.move ((before ++ lead).bytes + 1)
  refine ⟨lead, back, before, inner, behind, names, whole, starts, ?_, moved, by simp [texts]⟩
  rw [split, made, whole, text]
  simp

theorem receives_names {e : Edit} {texts : List Text} (makes : MakesList source braces texts e)
    (inside : ∀ f ∈ edits ++ [e], Edit.Inside source f) (clear : Edit.Clear (edits ++ [e]))
    (avoids : ∀ f ∈ edits, f.Avoids target.start target.stop) :
    Receives source target braces (edits ++ [e]) texts := by
  obtain ⟨part, gone, tail, inner, names, text, start, stop, behind_start, before_end, made_text, lists,
    rfl⟩ := makes
  obtain ⟨lead, back, whole, starts⟩ :=
    spells.text_within (importStatement_within isImport) within left right
  obtain ⟨front, rest, split, front_bytes, through_bytes⟩ :=
    spells.node_split (importStatement_within isImport)
  have target_text : target.text source = lead ++ part ++ gone ++ (tail ++ back) := by
    rw [whole, text]
    simp
  rw [← front_bytes, ← through_bytes, target_text] at avoids
  rw [target_text] at split
  rw [split] at inside
  have behind_start' : lead ++ part ++ gone ≠ [] := by
    rw [List.append_assoc]
    exact List.append_ne_nil_of_right_ne_nil lead behind_start
  have before_end' : gone ++ (tail ++ back) ≠ [] := by
    rw [← List.append_assoc]
    exact List.append_ne_nil_of_left_ne_nil before_end back
  simp only [Text.bytes_append] at stop
  obtain ⟨before, behind, made⟩ := Edit.apply_part inside clear
    (by simp only [Text.bytes_append]; omega) (by simp only [Text.bytes_append]; omega)
    behind_start' before_end' avoids
  obtain ⟨names', texts', moved⟩ := lists.move ((before ++ lead).bytes + 1)
  refine ⟨lead, back, before, inner, behind, names', whole, starts, ?_, moved, texts'⟩
  have around : lead ++ part ++ e.text ++ (tail ++ back) = lead ++ (part ++ (e.text ++ tail)) ++ back := by
    simp
  rw [split, made, around, made_text]
  simp

end

/-! ## The rule -/

/-- What the specifiers in braces are called here. -/
def localNames (source : Text) (braces : Node) : List String :=
  (specifiers braces).filterMap (importedAs? source)

/-- What a run of the rule takes out and what it puts into the braces: each name of the imports that go
is there already or comes with one specifier, and nothing else comes. -/
structure Merges (s : Setting) (source : Text) (tree braces : Node) (gone came : List Node) : Prop where
  goes : gone = (importStatements tree).filter (Goes s source)
  listed : came.Sublist (gone.flatMap importedSpecifiers)
  fresh : ∀ spec ∈ came, ∃ name, importedAs? source spec = some name ∧ name ∉ localNames source braces
  once : ∀ spec ∈ gone.flatMap importedSpecifiers, ∀ name, importedAs? source spec = some name →
    name ∈ localNames source braces ∨ ∃ a, came.filter (importedAs? source · = some name) = [a]

theorem merges_added (s : Setting) (source : Text) (tree braces : Node) :
    Merges s source tree braces ((importStatements tree).filter (Goes s source))
      (added source (localNames source braces)
        (((importStatements tree).filter (Goes s source)).flatMap importedSpecifiers)) where
  goes := rfl
  listed := added_sublist _ _
  fresh _ came := added_fresh came
  once spec moves name named := by
    by_cases there : name ∈ localNames source braces
    · exact Or.inl there
    · exact Or.inr (added_once moves named there)

theorem errorImportEdits_eq {braces : Node} (unified : unifiedBraces? s source tree = some braces) :
    ∃ gone came, Merges s source tree braces gone came ∧
      errorImportEdits s tree source = gone.map (deletion source) ++
        if came = [] then [] else [appendEdit source braces (came.map (·.name source))] := by
  refine ⟨_, _, merges_added s source tree braces, ?_⟩
  have opened : errorImportEdits s tree source =
      let m := ((errorImports s source tree).flatMap Prod.snd).foldl (Merge.add source)
        ⟨localNames source braces, []⟩
      let deletions := (errorImports s source tree).map fun moved => deletion source moved.1
      if m.moved.isEmpty then deletions else deletions ++ [appendEdit source braces m.moved] := by
    unfold errorImportEdits
    rw [unified]
    rfl
  have deletions : (errorImports s source tree).map (fun moved => deletion source moved.1) =
      ((importStatements tree).filter (Goes s source)).map (deletion source) := by
    rw [← errorImports_goes, List.map_map]
    rfl
  simp only [opened, foldl_merge, errorImports_specifiers, deletions, List.nil_append,
    List.isEmpty_map, List.isEmpty_iff]
  split <;> simp

/-- The imports that go leave the bytes of the one that takes their names. -/
theorem goes_avoids (spells : Spells source tree)
    (apart : s.config.unifiedModule ∉ s.config.deprecatedErrorModules) {target braces : Node}
    (isImport : target ∈ importStatements tree) (isTarget : IsTarget s source target braces) :
    ∀ e ∈ ((importStatements tree).filter (Goes s source)).map (deletion source),
      e.Avoids target.start target.stop := by
  intro e removed
  obtain ⟨m, goes, rfl⟩ := List.mem_map.mp removed
  obtain ⟨isImport', goes⟩ := List.mem_filter.mp goes
  obtain ⟨_, module, deprecated, _, names, _⟩ := of_decide_eq_true goes
  refine deletion_avoids spells isImport' isImport ?_
  rintro rfl
  obtain ⟨_, names'⟩ := isTarget
  have same := names.isSource.symm.trans names'.isSource
  exact apart (Option.some.inj same ▸ deprecated)

theorem merges_receives (spells : Spells source tree)
    (apart : s.config.unifiedModule ∉ s.config.deprecatedErrorModules)
    {target braces : Node} {gone came : List Node} (isImport : target ∈ importStatements tree)
    (isTarget : IsTarget s source target braces) (holds : HoldsList source braces)
    (merges : Merges s source tree braces gone came)
    (edits : errorImportEdits s tree source = gone.map (deletion source) ++
      if came = [] then [] else [appendEdit source braces (came.map (·.name source))]) :
    Receives source target braces (errorImportEdits s tree source)
      ((specifiers braces ++ came).map (·.text source)) := by
  obtain ⟨inside, clear⟩ := errorImportEdits_clear (s := s) spells apart
  have avoids := goes_avoids spells apart isImport isTarget
  rw [← merges.goes] at avoids
  obtain ⟨clause, names⟩ := isTarget
  obtain ⟨within, _, left, right⟩ := braces_lie spells.wellFormed isImport names.isClause names.named
  rw [edits] at inside clear ⊢
  by_cases none : came = []
  · rw [if_pos none, List.append_nil] at inside clear ⊢
    rw [none, List.append_nil]
    exact receives_nothing spells isImport within left right holds inside clear avoids
  · rw [if_neg none] at inside clear ⊢
    exact receives_names spells isImport within left right
      (appendEdit_makesList spells within holds none) inside clear avoids

/-- A module that imports error helpers twice, and has names of the unified module with a comma behind
the last. -/
def helperImports : Text :=
  ("import \x7b A, /* more */ \x7d from '@/lib/api';\n" ++
    "import \x7b E as F, A \x7d from '@/lib/api/error';\n").toList

def helperSetting (tree : Node) : Setting := settingOf {} .default helperImports tree

/-- Whether the module reads as a tree of its text in which the names stand where they are written, and
what is made of it. -/
def mergesHelpers : Bool :=
  readsAs (hasMarkup ⟨"a.ts"⟩) helperImports fun tree => decide (Spells helperImports tree ∧
    (∀ statement ∈ importStatements tree,
      importSource? helperImports statement = some "@/lib/api" →
        ∀ braces ∈ (importClause? statement).bind namedImports?,
          braces.text helperImports = "\x7b A, /* more */ \x7d".toList ∧ braces.start = 7 ∧
            (specifiers braces).map (fun n => (n.start, n.text helperImports)) = [(9, ['A'])]) ∧
    Edit.apply helperImports (errorImportEdits (helperSetting tree) tree helperImports) =
      .ok "import \x7b A, E as F /* more */ \x7d from '@/lib/api';\n".toList)

theorem gap_more : IsGap " /* more */ ".toList := by
  intro pos comments rest
  exact ⟨_, rfl⟩

theorem lists_more : Lists 8 [(9, ['A'])] " A, /* more */ ".toList :=
  ⟨[' '], ", /* more */ ".toList, isGap_space, rfl, rfl, Or.inr
    ⟨[], " /* more */ ".toList, isGap_nil, rfl, gap_more⟩⟩

end ClientMigration.Codemod
