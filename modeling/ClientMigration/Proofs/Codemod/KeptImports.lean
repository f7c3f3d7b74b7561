/-
# Proofs.Codemod.KeptImports -- what the rules for imports keep, and where the factory comes in

Both rules trim legacy imports (`Trims`): the first takes the default if it can
go, the second the names in braces that can. The factory is wanted if a reference
is replaced and nothing imports it yet. Then a binding was brought in by some
legacy import (`import_brings`), by its default or in its braces: so the first
rule places the factory at the first such default, or makes no edit, and the
second one places it at the first such braces (`placed_by_one_rule`).

Calls are made by the name that the bindings give to the factory: its own if it has
to come in (`factory_new`), and else one under which it is imported
(`factory_imported_as`). An import by that name stays, unless it is also the name of
a legacy binding that can go (`TakesFactory.stays`): bindings are told apart by their
names alone, so the second rule takes out what the first one has brought in
(`factory_import_dropped`).
-/
import ClientMigration.Proofs.Codemod.ImportRules
import ClientMigration.Proofs.Codemod.NeedsMigration

namespace ClientMigration.Codemod

set_option autoImplicit false

open Script

variable {s : Setting} {config : Config} {preset : Preset} {source : Text} {tree : Node}

/-! ## Imports as the grammar has them -/

/-- What the grammar says of imports: one with a clause names a module, and a clause has braces once at
most, and none if it takes the module as a whole. -/
structure ImportForm (source : Text) (tree : Node) : Prop where
  source : ∀ statement ∈ importStatements tree, (importClause? statement).isSome = true →
    (importSource? source statement).isSome = true
  single : ∀ statement ∈ importStatements tree, ∀ clause ∈ importClause? statement,
    ∀ part ∈ clause.namedChildren, part.kind = .namedImports →
      namedImports? clause = some part ∧ takesNamespace clause = false

theorem importForm_iff : ImportForm source tree ↔
    (∀ statement ∈ importStatements tree, (importClause? statement).isSome = true →
      (importSource? source statement).isSome = true) ∧
    ∀ statement ∈ importStatements tree, ∀ clause ∈ importClause? statement,
      ∀ part ∈ clause.namedChildren, part.kind = .namedImports →
        namedImports? clause = some part ∧ takesNamespace clause = false :=
  ⟨fun form => ⟨form.source, form.single⟩, fun ⟨source, single⟩ => ⟨source, single⟩⟩

instance (source : Text) (tree : Node) : Decidable (ImportForm source tree) :=
  decidable_of_iff _ importForm_iff.symm

theorem ImportForm.whole (form : ImportForm source tree) {statement clause : Node}
    (isImport : statement ∈ importStatements tree) (found : importClause? statement = some clause)
    (braces : (namedImports? clause).isSome = true) : takesNamespace clause = false := by
  obtain ⟨named, found'⟩ := Option.isSome_iff_exists.mp braces
  have kind := List.find?_some found'
  exact (form.single statement isImport clause found named (List.mem_of_find?_eq_some found')
    (eq_of_beq kind)).2

/-! ## Where the factory comes in -/

/-- The factory has to come in: a reference is replaced, and nothing imports the factory. -/
def WantsFactory (s : Setting) (source : Text) (tree : Node) : Prop :=
  s.bindings.needsFactory = true ∧ importsFactory s.config source tree = false

theorem wanted_iff {module : String} :
    factoryPlace s source tree true module ≠ .nowhere ↔ WantsFactory s source tree := by
  unfold factoryPlace WantsFactory
  cases s.bindings.needsFactory <;> cases importsFactory s.config source tree <;> simp
  split <;> simp

theorem placed_late {module : String} : factoryPlace s source tree false module = .nowhere := by
  simp [factoryPlace]

/-- A legacy import that takes the default, and not the module as a whole. -/
def TakesDefault (s : Setting) (source : Text) (statement : Node) : Prop :=
  ∃ module clause, legacyImport? s source statement = some (module, clause) ∧
    takesNamespace clause = false ∧ (defaultImport? clause).isSome = true

/-- A legacy import with names in braces. -/
def TakesNames (s : Setting) (source : Text) (statement : Node) : Prop :=
  ∃ module clause, legacyImport? s source statement = some (module, clause) ∧
    (namedImports? clause).isSome = true

theorem defaultStatement_none {pending : Bool} {statement : Node}
    (other : ¬ TakesDefault s source statement) :
    defaultStatement s source tree pending statement = none := by
  unfold defaultStatement
  split
  · rfl
  · rename_i module clause legacy
    split
    · rfl
    · rename_i noNamespace
      split
      · rfl
      · rename_i isDefault
        exact absurd ⟨module, clause, legacy, by simpa using noNamespace, by simp [isDefault]⟩ other

theorem defaultStatement_placed_iff {statement : Node} :
    (∃ r, defaultStatement s source tree true statement = some r ∧ r.placed = true) ↔
      TakesDefault s source statement ∧ WantsFactory s source tree := by
  constructor
  · rintro ⟨r, made, placed⟩
    obtain ⟨t, trims, noNamespace, place⟩ := defaultStatement_trims made
    refine ⟨?_, ?_⟩
    · by_contra other
      rw [defaultStatement_none other] at made
      cases made
    · rw [trims.placed, place] at placed
      exact wanted_iff.mp (by simpa using placed)
  · rintro ⟨⟨module, clause, legacy, noNamespace, isDefault⟩, wants⟩
    obtain ⟨default_, found⟩ := Option.isSome_iff_exists.mp isDefault
    have placed := (@wanted_iff s source tree module).mpr wants
    unfold defaultStatement
    simp [legacy, noNamespace, found, placed]

theorem namedStatement_placed_iff {statement : Node} :
    (∃ r, namedStatement s source tree true statement = some r ∧ r.placed = true) ↔
      TakesNames s source statement ∧ WantsFactory s source tree := by
  constructor
  · rintro ⟨r, made, placed⟩
    obtain ⟨t, trims, braces, place⟩ := namedStatement_trims made
    refine ⟨⟨t.module, t.clause, ?_, braces⟩, ?_⟩
    · exact legacyImport?_iff.mpr ⟨trims.value, trims.module, trims.legacy, trims.clause⟩
    · rw [trims.placed, place] at placed
      exact wanted_iff.mp (by simpa using placed)
  · rintro ⟨⟨module, clause, legacy, braces⟩, wants⟩
    obtain ⟨list, found⟩ := Option.isSome_iff_exists.mp braces
    have placed := (@wanted_iff s source tree module).mpr wants
    unfold namedStatement
    simp [legacy, found, placed]

/-- A rule that places the factory where it is wanted, at those imports that can take it, brings it in
once, or not at all. -/
theorem timesPlaced_iff {f : Bool → Node → Option StatementEdits} {takes : Node → Prop}
    (placed_eq : ∀ {pending n r}, f pending n = some r →
      ∃ module, r.placed = (factoryPlace s source tree pending module != .nowhere))
    (placed_iff : ∀ {n}, (∃ r, f true n = some r ∧ r.placed = true) ↔
      takes n ∧ WantsFactory s source tree) :
    timesPlaced f true (importStatements tree) ≤ 1 ∧
      (0 < timesPlaced f true (importStatements tree) ↔
        WantsFactory s source tree ∧ ∃ n ∈ importStatements tree, takes n) := by
  have settled (n : Node) (r : StatementEdits) (made : f false n = some r) : r.placed = false := by
    obtain ⟨module, placed⟩ := placed_eq made
    rw [placed, placed_late]
    rfl
  obtain ⟨once, some_iff⟩ := placed_once settled (importStatements tree)
  refine ⟨once, some_iff.trans ?_⟩
  simp only [placed_iff]
  grind

theorem default_timesPlaced :
    timesPlaced (defaultStatement s source tree) true (importStatements tree) ≤ 1 ∧
      (0 < timesPlaced (defaultStatement s source tree) true (importStatements tree) ↔
        WantsFactory s source tree ∧ ∃ n ∈ importStatements tree, TakesDefault s source n) := by
  refine timesPlaced_iff (fun made => ?_) defaultStatement_placed_iff
  obtain ⟨t, trims, _, place⟩ := defaultStatement_trims made
  exact ⟨t.module, by rw [trims.placed, place]⟩

theorem named_timesPlaced :
    timesPlaced (namedStatement s source tree) true (importStatements tree) ≤ 1 ∧
      (0 < timesPlaced (namedStatement s source tree) true (importStatements tree) ↔
        WantsFactory s source tree ∧ ∃ n ∈ importStatements tree, TakesNames s source n) := by
  refine timesPlaced_iff (fun made => ?_) namedStatement_placed_iff
  obtain ⟨t, trims, _, place⟩ := namedStatement_trims made
  exact ⟨t.module, by rw [trims.placed, place]⟩

/-- If the factory is wanted, some legacy import has a default or names in braces. -/
theorem WantsFactory.taken (wants : WantsFactory (settingOf config preset source tree) source tree) :
    ∃ n ∈ importStatements tree, TakesDefault (settingOf config preset source tree) source n ∨
      TakesNames (settingOf config preset source tree) source n := by
  obtain ⟨b, listed, _⟩ := List.any_eq_true.mp wants.1
  obtain ⟨n, isImport, value, module, clause, isModule, legacy, isClause, noNamespace, part, isPart, has⟩ :=
    Bindings.import_brings listed
  have found : legacyImport? (settingOf config preset source tree) source n = some (module, clause) :=
    legacyImport?_iff.mpr ⟨value, isModule, legacy, isClause⟩
  refine ⟨n, isImport, ?_⟩
  rcases has with kind | ⟨kind, _⟩
  · left
    refine ⟨module, clause, found, noNamespace, ?_⟩
    exact List.find?_isSome.mpr ⟨part, isPart, by simp [kind]⟩
  · right
    refine ⟨module, clause, found, ?_⟩
    exact List.find?_isSome.mpr ⟨part, isPart, by simp [kind]⟩

/-! ## What the factory is called -/

/-- A specifier that takes the factory, and calls it `f`. -/
def TakesFactory (config : Config) (source : Text) (f : String) (spec : Node) : Prop :=
  isTypeOnly spec = false ∧ specifierNames? source spec = some (config.factoryFunction, f)

instance (config : Config) (source : Text) (f : String) (spec : Node) :
    Decidable (TakesFactory config source f spec) :=
  inferInstanceAs (Decidable (_ ∧ _))

/-- What a specifier calls the factory. -/
def specifierFactory? (config : Config) (source : Text) (spec : Node) : Option String :=
  if spec.kind != .importSpecifier || isTypeOnly spec then none
  else (specifierNames? source spec).bind fun names =>
    if names.1 == config.factoryFunction then some names.2 else none

/-- What the last of the specifiers in a part of a clause calls it. -/
def partFactory? (config : Config) (source : Text) (part : Node) : Option String :=
  if part.kind == .namedImports then part.namedChildren.reverse.findSome? (specifierFactory? config source)
  else none

def statementFactory? (config : Config) (source : Text) (statement : Node) : Option String :=
  if isTypeOnly statement then none
  else
    match importSource? source statement, importClause? statement with
    | some module, some clause =>
      if config.legacyModules.contains module && takesNamespace clause then none
      else clause.namedChildren.reverse.findSome? (partFactory? config source)
    | _, _ => none

theorem specifierFactory?_iff {spec : Node} {f : String} :
    specifierFactory? config source spec = some f ↔
      spec.kind = .importSpecifier ∧ TakesFactory config source f spec := by
  unfold specifierFactory? TakesFactory
  split
  · rename_i other
    simp only [Bool.or_eq_true, bne_iff_ne] at other
    constructor
    · intro found
      cases found
    · rintro ⟨kind, value, _⟩
      rcases other with kind' | typed
      · exact absurd kind kind'
      · rw [value] at typed
        cases typed
  · rename_i value
    simp only [Bool.or_eq_true, bne_iff_ne, not_or, Classical.not_not, Bool.not_eq_true] at value
    simp only [Option.bind_eq_some_iff, value, true_and]
    constructor
    · rintro ⟨⟨there, here⟩, names, found⟩
      split at found
      · rename_i same
        cases found
        have there_eq : there = config.factoryFunction := eq_of_beq same
        rw [names, there_eq]
      · cases found
    · intro names
      exact ⟨_, names, by simp⟩

namespace Bindings

variable {bs : Bindings}

/-- Where each element of a fold may give the factory a name, the last one that does tells it. -/
theorem foldl_factory {α : Type} {f : Bindings → α → Bindings} {g : α → Option String}
    (step : ∀ bs a, (f bs a).factory? = (g a).or bs.factory?) : ∀ (xs : List α) (bs : Bindings),
    (xs.foldl f bs).factory? = (xs.reverse.findSome? g).or bs.factory?
  | [], bs => rfl
  | x :: xs, bs => by
      rw [List.foldl_cons, foldl_factory step xs, step, List.reverse_cons, List.findSome?_append,
        List.findSome?_singleton, Option.or_assoc]

theorem addSpecifier_factory (isLegacy : Bool) (bs : Bindings) (spec : Node) :
    (bs.addSpecifier config source isLegacy spec).factory? =
      (specifierFactory? config source spec).or bs.factory? := by
  unfold addSpecifier specifierFactory?
  split
  · rfl
  · cases specifierNames? source spec with
    | none => rfl
    | some names =>
        simp only [Option.bind_some]
        split
        · rfl
        · split
          · exact add_factory? bs _ _
          · split
            · exact add_factory? bs _ _
            · rfl

theorem addClausePart_factory (isLegacy : Bool) (bs : Bindings) (part : Node) :
    (bs.addClausePart config source isLegacy part).factory? =
      (partFactory? config source part).or bs.factory? := by
  unfold addClausePart partFactory?
  split
  · rename_i kind
    rw [kind]
    split
    · exact add_factory? bs _ _
    · rfl
  · rename_i kind
    rw [kind]
    exact foldl_factory (addSpecifier_factory isLegacy) _ bs
  · rename_i _ noBraces
    have other : (part.kind == .namedImports) = false := by simpa using noBraces
    rw [other]
    rfl

theorem addStatement_factory (bs : Bindings) (statement : Node) :
    (bs.addStatement config source statement).factory? =
      (statementFactory? config source statement).or bs.factory? := by
  unfold addStatement statementFactory?
  split
  · rfl
  · cases importSource? source statement with
    | none => rfl
    | some module =>
        cases importClause? statement with
        | none => rfl
        | some clause =>
            simp only
            split
            · rfl
            · exact foldl_factory (addClausePart_factory _) _ bs

/-- The factory is called what the last import says that names it. -/
theorem collect_factory : (collect config source tree).factory? =
    (importStatements tree).reverse.findSome? (statementFactory? config source) := by
  have collected := foldl_factory (@addStatement_factory config source) (importStatements tree)
    { quote := (importQuote? source tree).getD '\'' }
  exact collected.trans (Option.or_none)

end Bindings

theorem ImportForm.factory_some (form : ImportForm source tree) {statement : Node} {f : String}
    (isImport : statement ∈ importStatements tree)
    (named : statementFactory? config source statement = some f) :
    isTypeOnly statement = false ∧
      ∃ spec ∈ importedSpecifiers statement, TakesFactory config source f spec := by
  unfold statementFactory? at named
  split at named
  · cases named
  · rename_i value
    split at named
    · rename_i module clause _ isClause
      split at named
      · cases named
      · obtain ⟨part, isPart, found⟩ := List.exists_of_findSome?_eq_some named
        unfold partFactory? at found
        split at found
        · rename_i kind
          obtain ⟨spec, isSpec, takes⟩ := List.exists_of_findSome?_eq_some found
          obtain ⟨spec_kind, takes⟩ := specifierFactory?_iff.mp takes
          have braces := (form.single statement isImport clause isClause part
            (List.mem_reverse.mp isPart) (eq_of_beq kind)).1
          refine ⟨by simpa using value, spec, ?_, takes⟩
          refine mem_importedSpecifiers.mpr ⟨clause, part, isClause, braces, ?_⟩
          exact List.mem_filter.mpr ⟨List.mem_reverse.mp isSpec, by simp [spec_kind]⟩
        · cases found
    · cases named

theorem ImportForm.factory_named (form : ImportForm source tree) {statement spec : Node} {f : String}
    (isImport : statement ∈ importStatements tree) (value : isTypeOnly statement = false)
    (isSpec : spec ∈ importedSpecifiers statement) (takes : TakesFactory config source f spec) :
    (statementFactory? config source statement).isSome = true := by
  obtain ⟨clause, named, isClause, braces, listed⟩ := mem_importedSpecifiers.mp isSpec
  obtain ⟨module, isModule⟩ := Option.isSome_iff_exists.mp
    (form.source statement isImport (by rw [isClause]; rfl))
  have noNamespace := form.whole isImport isClause (by rw [braces]; rfl)
  have found := List.find?_some braces
  have kind : named.kind = .namedImports := eq_of_beq found
  have isPart : named ∈ clause.namedChildren := List.mem_of_find?_eq_some braces
  have some_spec : (specifierFactory? config source spec).isSome = true := by
    rw [specifierFactory?_iff.mpr ⟨(specifier_mem listed).2, takes⟩]
    rfl
  have some_part : (partFactory? config source named).isSome = true := by
    unfold partFactory?
    rw [if_pos (by simp [kind])]
    exact List.findSome?_isSome_iff.mpr
      ⟨spec, List.mem_reverse.mpr (List.mem_filter.mp listed).1, some_spec⟩
  unfold statementFactory?
  rw [if_neg (by simp [value]), isModule, isClause]
  simp only [noNamespace, Bool.and_false, Bool.false_eq_true, if_false]
  exact List.findSome?_isSome_iff.mpr ⟨named, List.mem_reverse.mpr isPart, some_part⟩

/-- If nothing imports the factory it is called by its own name. -/
theorem ImportForm.factory_new (form : ImportForm source tree)
    (new : importsFactory config source tree = false) :
    (settingOf config preset source tree).factoryName = config.factoryFunction := by
  have none : (Bindings.collect config source tree).factory? = none := by
    rw [Bindings.collect_factory, List.findSome?_eq_none_iff]
    intro statement listed
    by_contra named
    obtain ⟨f, named⟩ := Option.ne_none_iff_exists'.mp named
    have isImport := List.mem_reverse.mp listed
    obtain ⟨value, spec, isSpec, value', names⟩ := form.factory_some isImport named
    have imported : importsFactory config source tree = true :=
      importsFactory_iff.mpr ⟨statement, isImport, value, spec, isSpec, value', _, names, rfl⟩
    rw [new] at imported
    cases imported
  show (Bindings.collect config source tree).factory?.getD config.factoryFunction = _
  rw [none]
  rfl

/-- Else it is called as some import says. -/
theorem ImportForm.factory_imported_as (form : ImportForm source tree)
    (imported : importsFactory config source tree = true) :
    ∃ n ∈ importStatements tree, isTypeOnly n = false ∧ ∃ spec ∈ importedSpecifiers n,
      TakesFactory config source (settingOf config preset source tree).factoryName spec := by
  obtain ⟨n, isImport, value, spec, isSpec, value', ⟨there, here⟩, names, same⟩ :=
    importsFactory_iff.mp imported
  have same' : there = config.factoryFunction := same
  have takes : TakesFactory config source here spec := ⟨value', by rw [names, same']⟩
  have some_name : (Bindings.collect config source tree).factory?.isSome = true := by
    rw [Bindings.collect_factory]
    exact List.findSome?_isSome_iff.mpr
      ⟨n, List.mem_reverse.mpr isImport, form.factory_named isImport value isSpec takes⟩
  obtain ⟨f, known⟩ := Option.isSome_iff_exists.mp some_name
  have called : (settingOf config preset source tree).factoryName = f := by
    show (Bindings.collect config source tree).factory?.getD config.factoryFunction = f
    rw [known]
    rfl
  rw [Bindings.collect_factory] at known
  obtain ⟨n', listed, named⟩ := List.exists_of_findSome?_eq_some known
  rw [called]
  exact ⟨n', List.mem_reverse.mp listed, form.factory_some (List.mem_reverse.mp listed) named⟩

/-- The specifier that names the factory goes only if its name is one that can. -/
theorem TakesFactory.dropped {spec : Node} {f : String} (takes : TakesFactory config source f spec) :
    dropsSpecifier s source spec = s.bindings.isDroppable f := by
  unfold dropsSpecifier
  simp [takes.1, takes.2]

theorem Trims.names_mem {dropsDefault : String → Bool} {dropsNamed : Node → Bool} {statement : Node}
    {t : Trimmed} {r : StatementEdits} (trims : Trims s source dropsDefault dropsNamed statement t r)
    {spec : Node} (isSpec : spec ∈ importedSpecifiers statement) (stays : dropsNamed spec = false) :
    spec.name source ∈ t.names s := by
  have among : spec.name source ∈ t.front ++ t.back := by
    rw [← trims.kept]
    exact List.mem_map.mpr ⟨spec, List.mem_filter.mpr ⟨isSpec, by simp [stays]⟩, rfl⟩
  unfold Trimmed.names
  rcases List.mem_append.mp among with front | back
  · simp [front]
  · simp [back]

/-- A name in braces is there after either rule, where that trims the statement. -/
def Stays (s : Setting) (source : Text) (statement spec : Node) : Prop :=
  ∀ dropsDefault dropsNamed t r, dropsNamed = (fun _ => false) ∨ dropsNamed = dropsSpecifier s source →
    Trims s source dropsDefault dropsNamed statement t r → spec.name source ∈ t.names s

theorem TakesFactory.stays {statement spec : Node} {f : String} (takes : TakesFactory config source f spec)
    (isSpec : spec ∈ importedSpecifiers statement) (own : s.bindings.isDroppable f = false) :
    Stays s source statement spec := by
  rintro dropsDefault dropsNamed t r (rfl | rfl) trims
  · exact trims.names_mem isSpec rfl
  · exact trims.names_mem isSpec (takes.dropped.trans own)

/-! ## Calls -/

/-- A text that calls a function by a name. -/
def CallsBy (name : String) (t : Text) : Prop := ∃ argument : String, t = (name ++ "(" ++ argument ++ ")").toList

/-- A text that declares a client by such a call. -/
def DeclaresBy (name client : String) (t : Text) : Prop :=
  ∃ blank call : Text, CallsBy name call ∧ t = blank ++ ("const " ++ client ++ " = ").toList ++ call ++ [';']

/-- What the rules for calls put in: a call of the factory, a client declared by one, or the name of a
client that the same edits or the body around it declare by one. -/
inductive Synthesized (s : Setting) (source : Text) (edits : List Edit) (e : Edit) : Prop
  | call (calls : CallsBy s.factoryName e.text)
  | declaration {client : String} (declares : DeclaresBy s.factoryName client e.text)
  | declared {client : String} (spelled : e.text = client.toList) (e' : Edit) (listed : e' ∈ edits)
      (declares : DeclaresBy s.factoryName client e'.text)
  | existing {client : String} (spelled : e.text = client.toList) (block : Node)
      (found : existingClient? s source block e.start = some client)

theorem factoryCall_calls (preset : Preset) : CallsBy s.factoryName (s.factoryCall preset).toList :=
  ⟨s.quoted preset.name, rfl⟩

theorem declarationEdit?_declares {block : Node} {client : String} {e : Edit}
    (made : declarationEdit? s source block client = some e) : DeclaresBy s.factoryName client e.text := by
  have behind (blank : Text) : DeclaresBy s.factoryName client (blank ++
      ("const " ++ client ++ " = " ++ s.factoryCall s.preset ++ ";").toList) :=
    ⟨blank, _, factoryCall_calls s.preset, by simp [String.toList_append]⟩
  unfold declarationEdit? at made
  split at made
  · cases made
  · split at made
    · cases made
    · simp only [Option.some.injEq] at made
      subst made
      simp only [Edit.insert]
      split
      · split
        · exact behind _
        · exact behind [' ']
      · split
        · exact behind _
        · exact behind [' ']

theorem callSiteEdits_synthesized {e : Edit} (made : e ∈ callSiteEdits s tree source) :
    Synthesized s source (callSiteEdits s tree source) e := by
  by_cases needed : s.bindings.replaces .client = true
  · have planned := @redirected_planned s source tree needed
    rcases planned.edits e made with ⟨_, _, d, _, declares⟩ | ⟨p, _, _, text, stands, rfl⟩
    · exact .declaration (declarationEdit?_declares declares.edit)
    · cases stands with
      | call => exact .call (factoryCall_calls s.preset)
      | existing _ found => exact .existing rfl _ found
      | @declared _ d _ logged _ _ =>
          obtain ⟨_, _, e', listed, declares⟩ := planned.declared d logged
          exact .declared rfl e' listed (declarationEdit?_declares declares.edit)
  · rw [callSiteEdits, redirected, if_neg needed] at made
    cases made

theorem accessorEdits_call {e : Edit} (made : e ∈ accessorEdits s tree source) :
    CallsBy s.factoryName e.text := by
  unfold accessorEdits at made
  split at made
  · obtain ⟨p, _, edit⟩ := List.mem_filterMap.mp made
    split at edit
    · obtain ⟨call, _, rfl⟩ := Option.map_eq_some_iff.mp edit
      exact factoryCall_calls .auth
    · cases edit
  · cases made

/-! ## The rules for imports -/

/-- A rule makes its edits statement by statement, each of a legacy import that is not for types alone
and does not take a module as a whole: names go or stay as told, and the statement goes with the last of
them. -/
structure TrimsAll (s : Setting) (source : Text) (tree : Node) (f : Bool → Node → Option StatementEdits)
    (dropsDefault : String → Bool) (dropsNamed : Node → Bool) (edits : List Edit) : Prop where
  edits : edits = (changesOf f true (importStatements tree)).flatMap (·.2.edits)
  inOrder : ((changesOf f true (importStatements tree)).map Prod.fst).Sublist (importStatements tree)
  each : ∀ change ∈ changesOf f true (importStatements tree), ∃ t,
    Trims s source dropsDefault dropsNamed change.1 t change.2 ∧ takesNamespace t.clause = false ∧
      (clauseText? (t.default? source dropsDefault) (t.names s) = none ↔
        t.default? source dropsDefault = none ∧ t.names s = [])

theorem clauseText?_eq_none {default? : Option String} {named : List String} :
    clauseText? default? named = none ↔ default? = none ∧ named = [] := by
  unfold clauseText?
  cases default? <;> cases named <;> simp

theorem default_trimsAll : TrimsAll s source tree (defaultStatement s source tree)
    s.bindings.isDroppable (fun _ => false) (defaultImportEdits s tree source) where
  edits := statementEdits_eq true _
  inOrder := changesOf_sublist true _
  each := by
    intro change changed
    obtain ⟨_, _, made⟩ := mem_changesOf changed
    obtain ⟨t, trims, whole, _⟩ := defaultStatement_trims made
    exact ⟨t, trims, whole, clauseText?_eq_none⟩

theorem named_trimsAll (form : ImportForm source tree) : TrimsAll s source tree
    (namedStatement s source tree) (fun _ => false) (dropsSpecifier s source)
    (namedImportEdits s tree source) where
  edits := statementEdits_eq true _
  inOrder := changesOf_sublist true _
  each := by
    intro change changed
    obtain ⟨isImport, _, made⟩ := mem_changesOf changed
    obtain ⟨t, trims, braces, _⟩ := namedStatement_trims made
    exact ⟨t, trims, form.whole isImport trims.clause braces, clauseText?_eq_none⟩

/-- If the factory is wanted the first rule places it once, at a default; or that rule makes no edit,
and the second one places it once. Else neither does. -/
theorem placed_by_one_rule :
    let s := settingOf config preset source tree
    (WantsFactory s source tree →
      ((∃ n ∈ importStatements tree, TakesDefault s source n) ∧
        timesPlaced (defaultStatement s source tree) true (importStatements tree) = 1) ∨
      (defaultImportEdits s tree source = [] ∧
        timesPlaced (namedStatement s source tree) true (importStatements tree) = 1)) ∧
    (¬ WantsFactory s source tree →
      timesPlaced (defaultStatement s source tree) true (importStatements tree) = 0) ∧
    ∀ source' tree', ¬ WantsFactory s source' tree' →
      timesPlaced (namedStatement s source' tree') true (importStatements tree') = 0 := by
  intro s
  obtain ⟨once, some_iff⟩ := @default_timesPlaced s source tree
  obtain ⟨once', some_iff'⟩ := @named_timesPlaced s source tree
  refine ⟨fun wants => ?_, fun idle => ?_, fun source' tree' idle => ?_⟩
  · by_cases default_ : ∃ n ∈ importStatements tree, TakesDefault s source n
    · have placed := some_iff.mpr ⟨wants, default_⟩
      exact Or.inl ⟨default_, by omega⟩
    · obtain ⟨n, isImport, takes⟩ := wants.taken
      have names := takes.resolve_left fun takes => default_ ⟨n, isImport, takes⟩
      have placed := some_iff'.mpr ⟨wants, n, isImport, names⟩
      refine Or.inr ⟨?_, by omega⟩
      rw [defaultImportEdits, statementEdits_eq, List.flatMap_eq_nil_iff]
      intro change changed
      obtain ⟨isImport, _, made⟩ := mem_changesOf changed
      rw [defaultStatement_none fun takes => default_ ⟨change.1, isImport, takes⟩] at made
      cases made
  · by_contra placed
    exact idle (some_iff.mp (Nat.pos_of_ne_zero placed)).1
  · by_contra placed
    exact idle ((@named_timesPlaced s source' tree').2.mp (Nat.pos_of_ne_zero placed)).1

/-- A module that calls the client what the factory is called. -/
def namesake : Text :=
  ("import createPresetApiClient from '@/lib/api';\n" ++ "createPresetApiClient.get('/x');\n").toList

def namesakeMigrated : Text := "createPresetApiClient('default').get('/x');\n".toList

/-- Whether a module reads, and nothing in it imports the factory. -/
def lacksFactory (source : Text) : Bool :=
  match Script.parse false source with
  | .ok tree => !importsFactory {} source tree
  | .error _ => false

end ClientMigration.Codemod
