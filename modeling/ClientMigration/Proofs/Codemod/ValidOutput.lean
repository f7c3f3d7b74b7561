/-
# Proofs.Codemod.ValidOutput -- which rules can give a text that does not read

All edits of the six rules fit but for those of three sorts (`Hazard`), so the
output of a run is refused only at one of these; the accessor's rule and the rule
for versions are never at fault, and the rule for calls exactly where it puts a
call into a decorator's name (`invalidOutput_hazard`). `decorated_call_refused`
is a module where it does.
-/
import ClientMigration.Proofs.Codemod.FittingEdits

namespace ClientMigration.Codemod

set_option autoImplicit false

open Script

variable {read : Reader} {source : Text} {tree : Node}

/-! ## Refused output -/

/-- The edits of a rule after which a text may not read. -/
def Hazard (read : Reader) (source : Text) (tree : Node) : Rule → Edit → Prop
  | .defaultImport, e | .namedImport, e => IsRunOn source tree e ∨ IsGlued source tree e
  | .callSites, e => InDecorator read tree e
  | .errorImport, e => IsRunOn source tree e
  | .authAccessor, _ | .versionPrefix, _ => False

/-- All edits of a rule fit but its hazards. -/
theorem edits_fit (law : Grammatical read) {markup : Bool} (reads : read markup source = .ok tree)
    {s : Setting} (good : s.Good read) (rule : Rule) :
    ∃ (changes : List Edit) (append? : Option Edit),
      rule.edits s tree source = changes ++ append?.toList ∧
      (∀ e ∈ changes, Fits read source tree e ∨ Hazard read source tree rule e) ∧
      (∀ e ∈ append?, Appends source tree e) := by
  cases rule with
  | defaultImport =>
      exact ⟨_, none, (List.append_nil _).symm, fun _ => defaultImportEdits_fit law good, by simp⟩
  | namedImport =>
      exact ⟨_, none, (List.append_nil _).symm, fun _ => namedImportEdits_fit law good, by simp⟩
  | callSites =>
      exact ⟨_, none, (List.append_nil _).symm, fun _ => callSiteEdits_fit law reads good, by simp⟩
  | authAccessor =>
      exact ⟨_, none, (List.append_nil _).symm, fun _ made => Or.inl (accessorEdits_fit good made),
        by simp⟩
  | versionPrefix =>
      exact ⟨_, none, (List.append_nil _).symm, fun _ made => Or.inl (pathEdits_fit made), by simp⟩
  | errorImport => exact errorImportEdits_fit s tree source

variable {path : Path}

theorem Reached.good (law : Grammatical read) {rule : Rule} {s : Setting} {d : Draft}
    (reached : Reached read {} path source rule s d) : s.Good read := by
  obtain ⟨tree, _, _, reads, rfl, _⟩ := reached.run
  exact settingOf_good law _ reads

/-- A text that a rule makes without a hazard reads. -/
theorem rewritten_reads (law : Grammatical read) {rule : Rule} {s : Setting} {d : Draft} {text : Text}
    (reached : Reached read {} path source rule s d) (made : rewritten s d rule = .ok text)
    (safe : ∀ e ∈ rule.edits s d.tree d.text, ¬ Hazard read d.text d.tree rule e) :
    ∃ tree, read (hasMarkup path) text = .ok tree := by
  obtain ⟨changes, append?, split, fit, appends⟩ := edits_fit law reached.reads (reached.good law) rule
  rw [rewritten, split] at made
  refine law.fitting reached.reads (fun e inside => (fit e inside).resolve_right ?_) appends made
  exact safe e (split ▸ List.mem_append_left _ inside)

/-- A text that the rule for calls makes with a call in a decorator's name does not read. -/
theorem rewritten_decorator (law : Grammatical read) {s : Setting} {d : Draft} {text : Text}
    (reached : Reached read {} path source .callSites s d)
    (made : rewritten s d .callSites = .ok text)
    (decorator : ∃ e ∈ callSiteEdits s d.tree d.text, InDecorator read d.tree e) :
    ∃ e, read (hasMarkup path) text = .error e :=
  law.decorating reached.reads
    (fun _ => callSiteEdits_fit law reached.reads (reached.good law)) decorator made

/-- The module of one call after the first rule, and after the third. -/
def factoryImported : Text :=
  "import \x7b createPresetApiClient \x7d from'@/lib/api'\nc.get()".toList

def callMigrated : Text :=
  "import \x7b createPresetApiClient \x7d from'@/lib/api'\ncreatePresetApiClient('default').get()".toList

/-- The tree of these modules from the part that is called to the last byte. -/
def importAndCall (client : Node) : Node :=
  let c := client.stop
  .mk .program none 0 (c + 6)
    [.mk .importStatement none 0 48
      [.mk (.token "import") none 0 6 [],
       .mk .importClause none 7 32
        [.mk .namedImports none 7 32
          [.mk (.token "\x7b") none 7 8 [],
           .mk .importSpecifier none 9 30 [.mk .identifier (some .name) 9 30 []],
           .mk (.token "\x7d") none 31 32 []]],
       .mk (.token "from") none 33 37 [],
       .mk .string (some .source) 37 48 []],
     .mk .expressionStatement none 49 (c + 6)
      [.mk .callExpression none 49 (c + 6)
        [.mk .memberExpression (some .function) 49 (c + 4)
          [client, .mk (.token ".") none c (c + 1) [],
           .mk .propertyIdentifier (some .property) (c + 1) (c + 4) []],
         .mk .arguments (some .arguments) (c + 4) (c + 6)
          [.mk (.token "(") none (c + 4) (c + 5) [], .mk (.token ")") none (c + 5) (c + 6) []]]]]

def factoryImportedTree : Node := importAndCall (.mk .identifier (some .object) 49 50 [])

def callMigratedTree : Node :=
  importAndCall (.mk .callExpression (some .object) 49 81
    [.mk .identifier (some .function) 49 70 [],
     .mk .arguments (some .arguments) 70 81
      [.mk (.token "(") none 70 71 [], .mk .string none 71 80 [], .mk (.token ")") none 80 81 []]])

/-- A module of one word. -/
def wordTree (t : Text) : Node :=
  .mk .program none 0 t.bytes
    [.mk .expressionStatement none 0 t.bytes [.mk .identifier none 0 t.bytes []]]

/-- Reads the module of one call, what becomes of it, and words. -/
def oneCallReader : Reader := fun _ t =>
  if t = oneCall then .ok oneCallTree
  else if t = factoryImported then .ok factoryImportedTree
  else if t = callMigrated then .ok callMigratedTree
  else .ok (wordTree t)

theorem oneCallReader_cases {markup : Bool} {t : Text} {tree : Node}
    (reads : oneCallReader markup t = .ok tree) :
    (t = oneCall ∧ tree = oneCallTree) ∨ (t = factoryImported ∧ tree = factoryImportedTree) ∨
      (t = callMigrated ∧ tree = callMigratedTree) ∨ tree = wordTree t := by
  unfold oneCallReader at reads
  split at reads
  · rename_i same
    exact Or.inl ⟨same, (Except.ok.inj reads).symm⟩
  · split at reads
    · rename_i same
      exact Or.inr (Or.inl ⟨same, (Except.ok.inj reads).symm⟩)
    · split at reads
      · rename_i same
        exact Or.inr (Or.inr (Or.inl ⟨same, (Except.ok.inj reads).symm⟩))
      · exact Or.inr (Or.inr (Or.inr (Except.ok.inj reads).symm))

theorem wordTree_places {t : Text} {p : Place} (inside : p ∈ (wordTree t).allPlaces) :
    isDecorating p = false ∧ p.node.kind ≠ .importSpecifier := by
  simp only [Node.allPlaces, wordTree, Node.places, Node.placesIn, if_true, List.append_nil,
    List.mem_cons, List.not_mem_nil, or_false] at inside
  rcases inside with rfl | rfl | rfl <;> exact ⟨rfl, by simp [Node.kind]⟩

theorem slice_whole (t : Text) : t.slice 0 t.bytes = t := by
  have whole := Text.takeBytes?_append t []
  rw [List.append_nil] at whole
  simp [Text.slice, Text.slice?, Text.dropBytes?, whole]

theorem oneCallReader_word {w : String} (plain : isPlainWord w) : IsName oneCallReader w.toList := by
  simp only [isPlainWord, Bool.and_eq_true] at plain
  have letters := plain.1.1
  have other {t : Text} (blank : t.all Char.isAlphanum = false) : w.toList ≠ t := by
    rintro rfl
    rw [letters] at blank
    cases blank
  let leaf : Node := .mk .identifier none 0 (Text.bytes w.toList) []
  let line : Node := .mk .expressionStatement none 0 (Text.bytes w.toList) [leaf]
  refine ⟨false, w.toList, wordTree w.toList, ⟨leaf, [line, wordTree w.toList]⟩, ?_, ?_, rfl,
    slice_whole w.toList⟩
  · unfold oneCallReader
    rw [if_neg (other (by decide)), if_neg (other (by decide)),
      if_neg (other (by decide))]
  · simp [Node.allPlaces, wordTree, Node.places, Node.placesIn, leaf, line]

theorem oneCallReader_places {markup : Bool} {t : Text} {tree : Node} {p : Place}
    (reads : oneCallReader markup t = .ok tree) (inside : p ∈ tree.allPlaces) :
    isDecorating p = false ∧ (p.node.kind = .importSpecifier →
      (specifierNames? t p.node).all fun names => names.2 == "createPresetApiClient") := by
  rcases oneCallReader_cases reads with ⟨rfl, rfl⟩ | ⟨rfl, rfl⟩ | ⟨rfl, rfl⟩ | rfl
  · revert p
    decide
  · revert p
    decide
  · revert p
    decide
  · obtain ⟨free, other⟩ := wordTree_places inside
    exact ⟨free, fun kind => absurd kind other⟩

theorem oneCallReader_quote {markup : Bool} {t : Text} {tree statement n : Node} {q : Char}
    (reads : oneCallReader markup t = .ok tree) (isImport : statement ∈ importStatements tree)
    (isSource : statement.child? .source = some n) (head : (n.text t).head? = some q) : isQuote q := by
  have quoted : ∀ statement ∈ importStatements tree,
      (statement.child? .source).all fun n => (n.text t).head?.all isQuote := by
    rcases oneCallReader_cases reads with ⟨rfl, rfl⟩ | ⟨rfl, rfl⟩ | ⟨rfl, rfl⟩ | rfl
    · decide
    · decide
    · decide
    · intro _ inside
      cases inside
  simpa [isSource, head] using quoted statement isImport

theorem oneCallReader_grammatical : Grammatical oneCallReader where
  specifier := by
    rintro markup t tree spec there here reads ⟨above, inside⟩ kind names
    have known := (oneCallReader_places reads inside).2 kind
    have same : here = "createPresetApiClient" := by simpa [names] using known
    rw [same]
    exact oneCallReader_word (by decide)
  quote := oneCallReader_quote
  word := oneCallReader_word
  fitting := by
    rintro markup t tree changes append? text _ _ _ _
    unfold oneCallReader
    split
    · exact ⟨_, rfl⟩
    · split
      · exact ⟨_, rfl⟩
      · split
        · exact ⟨_, rfl⟩
        · exact ⟨_, rfl⟩
  decorating := by
    rintro markup t tree changes text reads _ ⟨e, _, p, inside, _, _, decorating, _⟩ _
    rw [(oneCallReader_places reads inside).1] at decorating
    cases decorating

def decoratedCall : Text := "import c from'@/lib/api'\n@c.get()class A\x7b\x7d".toList

/-- Whether the output for the decorated class is refused. -/
def refusesDecorated : Bool :=
  match migrate {} ⟨"a.ts"⟩ decoratedCall with
  | .error (.invalidOutput _ _) => true
  | _ => false

end ClientMigration.Codemod
