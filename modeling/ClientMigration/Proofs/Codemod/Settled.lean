/-
# Proofs.Codemod.Settled -- what the rules find nothing to do about

The rules for the legacy names do nothing where no binding has a replaceable
reference. After the last two rules no literal loses a version (`settled_paths`)
and no import of error helpers moves (`settled_errors`): a path that has lost its
versions has none to lose, what can move is taken out where it stood, and the
last two rules bring nothing in that was not imported before.
-/
import ClientMigration.Proofs.Codemod.Leftovers

namespace ClientMigration.Codemod

set_option autoImplicit false

open Script

variable {read : Reader} {config : Config} {path : Path} {source text : Text} {tree tree' : Node}
  {s : Setting}

/-! ## Bindings without replaceable references -/

theorem statementEdits_nil {f : Bool → Node → Option StatementEdits}
    (none : ∀ pending n, f pending n = none) : ∀ {pending : Bool} {ns : List Node},
      statementEdits f pending ns = []
  | _, [] => rfl
  | pending, n :: ns => by
      rw [statementEdits, none pending n]
      exact statementEdits_nil none

/-- The rule for a kind of binding has nothing to do if no reference to that kind is replaceable. -/
theorem kindEdits_nil {kind : BindingKind} (unneeded : s.bindings.replaces kind = false) :
    kind.rule.edits s tree source = [] := by
  cases kind with
  | client =>
      show (redirected s tree source).edits = []
      rw [redirected, unneeded]
      rfl
  | accessor =>
      show accessorEdits s tree source = []
      rw [accessorEdits, unneeded]
      rfl

section

variable (none : ∀ b ∈ s.bindings.list, b.replaceable = 0)

include none

theorem needsFactory_false : s.bindings.needsFactory = false := by
  rw [Bindings.needsFactory, List.any_eq_false]
  intro b listed
  simp [none b listed]

theorem replaces_false (kind : BindingKind) : s.bindings.replaces kind = false := by
  rw [Bindings.replaces, List.any_eq_false]
  intro b listed
  simp [none b listed]

theorem isDroppable_false (name : String) : s.bindings.isDroppable name = false := by
  rw [Bindings.isDroppable, Bindings.get?]
  cases found : s.bindings.list.find? (·.name == name) with
  | none => rfl
  | some b =>
      have unused := none b (List.mem_of_find?_eq_some found)
      simp only [Option.any_some, Binding.isDroppable, unused]
      simp only [Bool.and_eq_false_imp, decide_eq_true_eq, beq_eq_false_iff_ne]
      omega

theorem factoryPlace_nowhere (pending : Bool) (module : String) :
    factoryPlace s source tree pending module = .nowhere := by
  simp [factoryPlace, needsFactory_false none]

theorem defaultImportEdits_nil : defaultImportEdits s tree source = [] := by
  unfold defaultImportEdits
  refine statementEdits_nil fun pending statement => ?_
  unfold defaultStatement
  split
  · rfl
  · split
    · rfl
    · split
      · rfl
      · simp [isDroppable_false none, factoryPlace_nowhere none]

theorem namedImportEdits_nil : namedImportEdits s tree source = [] := by
  unfold namedImportEdits
  refine statementEdits_nil fun pending statement => ?_
  have kept (spec : Node) : dropsSpecifier s source spec = false := by
    simp [dropsSpecifier, isDroppable_false none]
  unfold namedStatement
  split
  · rfl
  · split
    · rfl
    · simp [kept, factoryPlace_nowhere none]

theorem callSiteEdits_nil : callSiteEdits s tree source = [] :=
  kindEdits_nil (replaces_false none .client)

theorem accessorEdits_nil : accessorEdits s tree source = [] :=
  kindEdits_nil (replaces_false none .accessor)

end

/-! ## Literals -/

/-- Whether a literal loses a version depends on its text alone. -/
theorem literalEdit?_isSome_congr {n n' : Node} (same : n'.text text = n.text source) :
    (literalEdit? text n').isSome = (literalEdit? source n).isSome := by
  rw [Bool.eq_iff_iff, Option.isSome_iff_exists, Option.isSome_iff_exists]
  simp only [literalEdit?_iff, same]
  constructor
  · rintro ⟨_, quote, path, short, whole, stripped, _⟩
    exact ⟨_, quote, path, short, whole, stripped, rfl⟩
  · rintro ⟨_, quote, path, short, whole, stripped, _⟩
    exact ⟨_, quote, path, short, whole, stripped, rfl⟩

theorem literalEdit?_bytes {n : Node} {e : Edit} (edit : literalEdit? source n = some e) :
    e = ⟨n.start, n.stop, e.text⟩ := by
  obtain ⟨_, _, _, _, _, rfl⟩ := literalEdit?_iff.mp edit
  rfl

/-- A literal that has lost its versions has none to lose. -/
theorem literalEdit?_settled {m n n' : Node} {new : Text}
    (edit : literalEdit? source m = some ⟨n.start, n.stop, new⟩) (same : n'.text text = new) :
    literalEdit? text n' = none := by
  obtain ⟨quote, path, short, _, stripped, made⟩ := literalEdit?_iff.mp edit
  injection made with _ _ made
  rw [Option.eq_none_iff_forall_ne_some]
  intro e edit'
  obtain ⟨quote', path', short', whole, stripped', _⟩ := literalEdit?_iff.mp edit'
  rw [same, made, List.cons_append, List.cons_append] at whole
  injection whole with _ inner
  have paths : path' = short := (List.append_inj_left' inner rfl).symm
  rw [paths, stripVersions?_settled stripped] at stripped'
  cases stripped'

/-- A literal whose versions go if the file is in scope. -/
structure IsPathLiteral (tree : Node) (p : Place) : Prop where
  visited : p ∈ tree.places entersForPaths []
  literal : isLiteral p.node
  unnamed : ¬ namesModule p

theorem mem_pathEdits {e : Edit} : e ∈ pathEdits config tree source ↔
    inPathScope config source tree ∧ ∃ p, IsPathLiteral tree p ∧ literalEdit? source p.node = some e := by
  unfold pathEdits
  split
  · rename_i scope
    simp only [List.mem_filterMap, scope, true_and]
    constructor
    · rintro ⟨p, visited, edit⟩
      split at edit
      · rename_i form
        simp only [Bool.and_eq_true, Bool.not_eq_true'] at form
        exact ⟨p, ⟨visited, form.1, by simp [form.2]⟩, edit⟩
      · cases edit
    · rintro ⟨p, form, edit⟩
      refine ⟨p, form.visited, ?_⟩
      simp [form.literal, form.unnamed, edit]
  · rename_i scope
    simp [scope]

/-- Walks for paths go down or not by the kind of a node. -/
theorem entersForPaths_congr {n n' : Node} (same : n'.kind = n.kind) :
    entersForPaths n' = entersForPaths n := by
  rw [entersForPaths, entersForPaths, isLiteral, isLiteral, same]

theorem namesModule_congr {ch : Changes} {p p' : Place} (paired : Paired ch source text p p') :
    namesModule p' = namesModule p := by
  obtain ⟨_, _, same⟩ := paired.node
  have role : p'.node.plays .source = p.node.plays .source := by
    rw [Node.plays, Node.plays, same.role]
  rw [namesModule, namesModule, role, Place.parent?, Place.parent?]
  have pairs := paired.above
  generalize p.above = up at pairs
  generalize p'.above = up' at pairs
  cases pairs with
  | nil => rfl
  | cons stands _ =>
      rw [List.head?_cons, List.head?_cons, Option.any_some, Option.any_some, stands.kind]

/-- Where a rule puts nothing in, a literal stands for a literal. -/
theorem pathLiteral_before {ch : Changes} (kept : Kept ch source text .program tree tree')
    (still : ∀ k m new, ¬ ch.swap k m new) (none : ∀ block name, ¬ ch.declare block name) {p' : Place}
    (form : IsPathLiteral tree' p') : ∃ p, IsPathLiteral tree p ∧ Paired ch source text p p' := by
  obtain ⟨inTree, enters⟩ := Node.mem_places_iff_enters.mp form.visited
  have comesFrom := origin kept inTree
  cases comesFrom with
  | @kept p inside paired =>
      obtain ⟨_, _, same⟩ := paired.node
      refine ⟨p, ⟨Node.mem_places_iff_enters.mpr ⟨inside, fun a passed => ?_⟩, ?_, ?_⟩, paired⟩
      · obtain ⟨a', passed', stands⟩ := forall₂_mem paired.above passed
        rw [← entersForPaths_congr stands.kind]
        exact enters a' passed'
      · have literal := form.literal
        rw [isLiteral, same.kind] at literal
        exact literal
      · rw [← namesModule_congr paired]
        exact form.unnamed
  | swapped _ swap => exact absurd swap (still _ _ _)
  | declared declares => exact absurd declares (none _ _)
  | @imported a passed isImport =>
      exfalso
      rcases passed with rfl | above
      · have literal := form.literal
        simp [isLiteral, isImport] at literal
      · have entered := enters a above
        simp [entersForPaths, isImport] at entered

/-! ## Imports -/

theorem mem_importedSpecifiers {statement spec : Node} : spec ∈ importedSpecifiers statement ↔
    ∃ clause named, importClause? statement = some clause ∧ namedImports? clause = some named ∧
      spec ∈ specifiers named := by
  unfold importedSpecifiers
  cases isClause : importClause? statement with
  | none => simp
  | some clause =>
      cases braces : namedImports? clause with
      | none => simp [braces]
      | some named => simp [braces]

/-- Some import takes the factory in braces, and not as a type. -/
theorem importsFactory_iff : importsFactory config source tree ↔
    ∃ statement ∈ importStatements tree, isTypeOnly statement = false ∧
      ∃ spec ∈ importedSpecifiers statement, isTypeOnly spec = false ∧
        ∃ names, specifierNames? source spec = some names ∧ names.1 = config.factoryFunction := by
  simp only [importsFactory, List.any_eq_true, Bool.and_eq_true, Bool.not_eq_true',
    Option.any_eq_true, Option.bind_eq_some_iff, beq_iff_eq, mem_importedSpecifiers]
  constructor
  · rintro ⟨statement, isImport, value, named, ⟨clause, isClause, braces⟩, spec, listed, rest⟩
    exact ⟨statement, isImport, value, spec, ⟨clause, named, isClause, braces, listed⟩, rest⟩
  · rintro ⟨statement, isImport, value, spec, ⟨clause, named, isClause, braces, listed⟩, rest⟩
    exact ⟨statement, isImport, value, named, ⟨clause, isClause, braces⟩, spec, listed, rest⟩

theorem errorImport?_value {statement : Node} {specs : List Node}
    (found : errorImport? s source statement = some specs) :
    isTypeOnly statement = false ∧ specs = importedSpecifiers statement := by
  obtain ⟨_, ⟨_, _, _, names, _⟩, rfl⟩ := errorImport?_iff.mp found
  exact ⟨names.values, by simp [importedSpecifiers, names.isClause, names.named]⟩

/-- The factory is imported after one of the last rules only if it was before. -/
theorem Reached.importsFactory_before {rule : Rule} {d : Draft} (law : Faithful read)
    (reached : Reached read {} path source rule s d) (late : rule = .versionPrefix ∨ rule = .errorImport)
    (apart : LeavesApart s d rule) (made : rewritten s d rule = .ok text)
    (reads : read (hasMarkup path) text = .ok tree) (imports : importsFactory config text tree) :
    importsFactory config d.text d.tree := by
  obtain ⟨n', isImport', value', spec', listed', spec_value', names, found, there⟩ :=
    importsFactory_iff.mp imports
  obtain ⟨n, isImport, _, same, specs⟩ := law.imports reached late apart made reads n' isImport'
  obtain ⟨spec, may, spec_same⟩ := specs spec' listed'
  have spec_value : isTypeOnly spec = false := spec_same.typeOnly ▸ spec_value'
  have names_same : specifierNames? d.text spec = some names := spec_same.names ▸ found
  rcases may with listed | ⟨m, m_import, moved, isMoved, among⟩
  · have value : isTypeOnly n = false := same.typeOnly ▸ value'
    exact importsFactory_iff.mpr ⟨n, isImport, value, spec, listed, spec_value, names, names_same, there⟩
  · obtain ⟨value, rfl⟩ := errorImport?_value isMoved
    exact importsFactory_iff.mpr ⟨m, m_import, value, spec, among, spec_value, names, names_same, there⟩

/-- No literal of a module loses a version after the last two rules. -/
theorem settled_paths (law : Faithful read) {d₄ d₅ : Draft}
    (reached₄ : Reached read {} path source .versionPrefix s d₄)
    (apart₄ : LeavesApart s d₄ .versionPrefix)
    (made₅ : rewritten s d₄ .versionPrefix = .ok d₅.text)
    (reached₅ : Reached read {} path source .errorImport s d₅)
    (apart₅ : LeavesApart s d₅ .errorImport) (made : rewritten s d₅ .errorImport = .ok text)
    (reads : read (hasMarkup path) text = .ok tree) : pathEdits {} tree text = [] := by
  rw [List.eq_nil_iff_forall_not_mem]
  intro e found
  obtain ⟨scope, p, form, edit⟩ := mem_pathEdits.mp found
  have scope₄ : inPathScope s.config d₄.text d₄.tree := by
    rw [reached₄.config_eq]
    exact reached₄.importsFactory_before law (Or.inl rfl) apart₄ made₅ reached₅.reads
      (reached₅.importsFactory_before law (Or.inr rfl) apart₅ made reads scope)
  have kept₆ := law.code reached₅ apart₅ made reads
  obtain ⟨p₅, form₅, paired₅⟩ := pathLiteral_before kept₆ (fun _ _ _ => id) (fun _ _ => id) form
  have kept₅ := law.code reached₄ apart₄ made₅ reached₅.reads
  obtain ⟨p₄, form₄, paired₄⟩ := pathLiteral_before kept₅ (fun _ _ _ => id) (fun _ _ => id) form₅
  obtain ⟨_, _, same₅⟩ := paired₅.node
  obtain ⟨_, _, same₄⟩ := paired₄.node
  have text₅ := same₅.literal form₅.literal (fun _ => id) fun _ _ _ => id
  have loses : (literalEdit? d₅.text p₅.node).isSome := by
    rw [← literalEdit?_isSome_congr text₅, edit]
    rfl
  -- a literal that was respelled is settled; one that was not would have been
  by_cases respelled : ∃ new, (Changes.of s d₄.tree d₄.text .versionPrefix).respell p₄.node new
  · obtain ⟨new, made_new⟩ := respelled
    obtain ⟨_, q, _, edit_new⟩ := mem_pathEdits.mp made_new
    have settled := literalEdit?_settled edit_new (same₄.respelled form₄.literal new made_new)
    rw [settled] at loses
    cases loses
  · have text₄ := same₄.literal form₄.literal (fun new made_new => respelled ⟨new, made_new⟩)
      fun _ _ _ => id
    rw [literalEdit?_isSome_congr text₄] at loses
    obtain ⟨e₄, edit₄⟩ := Option.isSome_iff_exists.mp loses
    have e₄_bytes : e₄ = ⟨p₄.node.start, p₄.node.stop, e₄.text⟩ := literalEdit?_bytes edit₄
    rw [e₄_bytes] at edit₄
    exact respelled ⟨e₄.text, mem_pathEdits.mpr ⟨scope₄, p₄, form₄, edit₄⟩⟩

/-! ## Error helpers -/

theorem errorImportEdits_congr {s' : Setting} (same : s'.config = s.config) :
    errorImportEdits s' tree source = errorImportEdits s tree source := by
  cases s
  cases s'
  cases same
  rfl

/-- Whether an import of error helpers can move depends on its form alone. -/
theorem errorImport?_before {n n' : Node} (same : SameImport source text n n')
    (moves : (errorImport? s text n').isSome) : (errorImport? s source n).isSome := by
  obtain ⟨_, found⟩ := Option.isSome_iff_exists.mp moves
  obtain ⟨braces', ⟨module, deprecated, clause', names, noDefault, noNamespace⟩, _⟩ :=
    errorImport?_iff.mp found
  have form := same.form
  rw [names.isClause, Option.map_some] at form
  obtain ⟨clause, isClause, form⟩ := Option.map_eq_some_iff.mp form.symm
  simp only [clauseForm, Prod.mk.injEq, noDefault, noNamespace, names.named, Option.isSome_none,
    Option.isSome_some, Option.isSome_eq_false_iff, Option.isNone_iff_eq_none] at form
  obtain ⟨noNamespace', noDefault', some_braces⟩ := form
  obtain ⟨braces, named⟩ := Option.isSome_iff_exists.mp some_braces
  have names' : ImportsNames source n module clause braces :=
    ⟨same.typeOnly ▸ names.values, same.module ▸ names.isSource, isClause, named⟩
  exact Option.isSome_iff_exists.mpr ⟨_, errorImport?_iff.mpr
    ⟨braces, ⟨module, deprecated, clause, names', noDefault', noNamespace'⟩, rfl⟩⟩

theorem errorImportEdits_nil
    (none : ∀ n ∈ importStatements tree, errorImport? s source n = none) :
    errorImportEdits s tree source = [] := by
  have nothing : ((importStatements tree).filterMap fun statement =>
      (errorImport? s source statement).map fun specs => (statement, specs)) = [] := by
    rw [List.filterMap_eq_nil_iff]
    intro n isImport
    rw [none n isImport]
    rfl
  unfold errorImportEdits
  split
  · rfl
  · simp [nothing]

/-- What can move is taken out where it stands. -/
theorem errorImport?_taken {n braces : Node} (unified : unifiedBraces? s source tree = some braces)
    (isImport : n ∈ importStatements tree) (moves : (errorImport? s source n).isSome) :
    deletion source n ∈ errorImportEdits s tree source := by
  obtain ⟨specs, found⟩ := Option.isSome_iff_exists.mp moves
  have moving : (n, specs) ∈ (importStatements tree).filterMap fun statement =>
      (errorImport? s source statement).map fun specs => (statement, specs) :=
    List.mem_filterMap.mpr ⟨n, isImport, by rw [found]; rfl⟩
  have taken := List.mem_map_of_mem (f := fun m => deletion source (Prod.fst m)) moving
  unfold errorImportEdits
  rw [unified]
  simp only
  split
  · exact taken
  · exact List.mem_append_left _ taken

/-- The last rule leaves its own text alone. -/
theorem settled_errors (law : Faithful read) {d₅ : Draft}
    (reached₅ : Reached read {} path source .errorImport s d₅)
    (apart₅ : LeavesApart s d₅ .errorImport) (made : rewritten s d₅ .errorImport = .ok text)
    (reads : read (hasMarkup path) text = .ok tree) : errorImportEdits s tree text = [] := by
  cases unified : unifiedBraces? s d₅.text d₅.tree with
  | none =>
      -- without braces to move to, the rule has not changed the text
      have nothing : errorImportEdits s d₅.tree d₅.text = [] := by
        unfold errorImportEdits
        rw [unified]
      have still : rewritten s d₅ .errorImport = .ok d₅.text := rewritten_of_no_edits nothing
      cases Except.ok.inj (still.symm.trans made)
      rw [reached₅.reads] at reads
      cases reads
      exact nothing
  | some braces =>
      refine errorImportEdits_nil fun n' isImport' => ?_
      obtain ⟨n, isImport, stays, same, _⟩ :=
        law.imports reached₅ (Or.inr rfl) apart₅ made reads n' isImport'
      rw [← Option.not_isSome_iff_eq_none]
      intro moves
      exact stays (errorImport?_taken unified isImport (errorImport?_before same moves))

end ClientMigration.Codemod
