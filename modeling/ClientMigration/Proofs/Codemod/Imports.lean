/-
# Proofs.Codemod.Imports -- what the imports of a module bring in

The bindings of a module are collected by a fold over statements, clauses and
specifiers. Whatever holds of no bindings, and stays when one is added or the
factory becomes known, holds of all (`ofImports_induct`); so no two bindings have
one name, and the factory is called what some specifier says.

The names of error helpers are collected by a fold too. It gives the first
specifier of each name that is not there yet (`added_once`), from the imports that
take names of a deprecated module and nothing else (`errorImport?_iff`).
-/
import ClientMigration.Codemod.ImportEdits
import ClientMigration.Proofs.Script.Places

namespace ClientMigration.Codemod

set_option autoImplicit false

open Script

variable {config : Config} {source : Text} {tree : Node}

/-! ## Nodes of imports -/

theorem namedChild_mem {n c : Node} (isChild : c ∈ n.namedChildren) : c ∈ n.children :=
  (List.mem_filter.mp isChild).1

theorem importStatement_mem {statement : Node} (isImport : statement ∈ importStatements tree) :
    statement ∈ tree.children ∧ statement.kind = .importStatement := by
  obtain ⟨isChild, kind⟩ := List.mem_filter.mp isImport
  exact ⟨isChild, eq_of_beq kind⟩

theorem importStatement_within {statement : Node} (isImport : statement ∈ importStatements tree) :
    Node.Within tree statement :=
  (Node.within_self tree).child (importStatement_mem isImport).1

theorem importClause?_mem {statement clause : Node} (found : importClause? statement = some clause) :
    clause ∈ statement.children :=
  namedChild_mem (List.mem_of_find?_eq_some found)

theorem namedImports?_mem {clause named : Node} (found : namedImports? clause = some named) :
    named ∈ clause.children :=
  namedChild_mem (List.mem_of_find?_eq_some found)

theorem specifier_mem {named spec : Node} (listed : spec ∈ specifiers named) :
    spec ∈ named.children ∧ spec.kind = .importSpecifier := by
  obtain ⟨isChild, kind⟩ := List.mem_filter.mp listed
  exact ⟨namedChild_mem isChild, eq_of_beq kind⟩

/-- The specifiers of an import stand in the tree. -/
theorem specifier_within {statement clause named spec : Node}
    (isImport : statement ∈ importStatements tree) (found : importClause? statement = some clause)
    (braces : namedImports? clause = some named) (listed : spec ∈ specifiers named) :
    Node.Within tree spec ∧ spec.kind = .importSpecifier := by
  obtain ⟨isChild, kind⟩ := specifier_mem listed
  have clause_within := (importStatement_within isImport).child (importClause?_mem found)
  exact ⟨(clause_within.child (namedImports?_mem braces)).child isChild, kind⟩

/-! ## Collecting -/

namespace Bindings

/-- A property of bindings that adding one keeps, and learning what the factory is called. -/
structure Closed (source : Text) (tree : Node) (P : Bindings → Prop) : Prop where
  add : ∀ bs kind name, P bs → P (bs.add kind name)
  factory : ∀ bs spec there here, P bs → Node.Within tree spec → spec.kind = .importSpecifier →
    specifierNames? source spec = some (there, here) → P { bs with factory? := some here }

variable {P : Bindings → Prop}

theorem Closed.addSpecifier (closed : Closed source tree P) {bs : Bindings} (holds : P bs)
    (isLegacy : Bool) {spec : Node} (inside : Node.Within tree spec) :
    P (bs.addSpecifier config source isLegacy spec) := by
  unfold Bindings.addSpecifier
  split
  · exact holds
  · rename_i value
    split
    · exact holds
    · rename_i there here names
      split
      · have kind : spec.kind = .importSpecifier := by
          simp only [Bool.or_eq_true, bne_iff_ne, not_or, Classical.not_not] at value
          exact value.1
        exact closed.factory bs spec there here holds inside kind names
      · split
        · exact closed.add _ _ _ holds
        · split
          · exact closed.add _ _ _ holds
          · exact holds

theorem Closed.addClausePart (closed : Closed source tree P) {bs : Bindings} (holds : P bs)
    (isLegacy : Bool) {part : Node} (inside : Node.Within tree part) :
    P (bs.addClausePart config source isLegacy part) := by
  unfold Bindings.addClausePart
  split
  · split
    · exact closed.add _ _ _ holds
    · exact holds
  · exact List.foldlRecOn _ _ holds fun _ before spec listed =>
      closed.addSpecifier before isLegacy (inside.child (namedChild_mem listed))
  · exact holds

theorem Closed.addStatement (closed : Closed source tree P) {bs : Bindings} (holds : P bs)
    {statement : Node} (inside : Node.Within tree statement) :
    P (bs.addStatement config source statement) := by
  unfold Bindings.addStatement
  split
  · exact holds
  · split
    · rename_i module clause named found
      simp only
      split
      · exact holds
      · have clause_within := inside.child (importClause?_mem found)
        exact List.foldlRecOn _ _ holds fun _ before part listed =>
          closed.addClausePart before _ (clause_within.child (namedChild_mem listed))
    · exact holds

/-- What holds before the first import, and is closed, holds of what all imports bring in. -/
theorem ofImports_induct (closed : Closed source tree P)
    (start : P { quote := (importQuote? source tree).getD '\'' }) :
    P (ofImports config source tree) :=
  List.foldlRecOn _ _ start fun _ before _ isImport =>
    closed.addStatement before (importStatement_within isImport)

/-! ## One binding for a name -/

/-- No two bindings have one name. -/
def Distinct (bs : Bindings) : Prop := (bs.list.map Binding.name).Nodup

theorem get?_eq_none {bs : Bindings} {name : String} :
    bs.get? name = none ↔ name ∉ bs.list.map Binding.name := by
  simp only [get?, List.find?_eq_none, beq_iff_eq, List.mem_map, not_exists, not_and]

theorem Distinct.add {bs : Bindings} (distinct : bs.Distinct) (kind : BindingKind)
    (name : String) : (bs.add kind name).Distinct := by
  unfold Bindings.add
  by_cases taken : (bs.get? name).isSome = true
  · rw [if_pos taken]
    exact distinct
  · rw [if_neg taken]
    have new : name ∉ bs.list.map Binding.name :=
      get?_eq_none.mp (Option.not_isSome_iff_eq_none.mp taken)
    show (List.map Binding.name (bs.list ++ [_])).Nodup
    rw [List.map_append, List.nodup_append]
    refine ⟨distinct, by simp, ?_⟩
    rintro x before y last rfl
    have same : x = name := List.mem_singleton.mp last
    exact new (same ▸ before)

theorem ofImports_distinct (tree : Node) : (ofImports config source tree).Distinct :=
  ofImports_induct ⟨fun _ kind name distinct => distinct.add kind name,
    fun _ _ _ _ distinct _ _ _ => distinct⟩ List.nodup_nil

theorem collect_distinct (tree : Node) : (collect config source tree).Distinct := by
  show (List.map Binding.name (List.map (count config source tree) _)).Nodup
  rw [List.map_map]
  exact ofImports_distinct tree

theorem Distinct.get? {bs : Bindings} (distinct : bs.Distinct) {b : Binding} (listed : b ∈ bs.list) :
    bs.get? b.name = some b := by
  unfold Bindings.get?
  unfold Distinct at distinct
  generalize bs.list = list at distinct listed
  induction list with
  | nil => simp at listed
  | cons first rest further =>
      rw [List.map_cons, List.nodup_cons] at distinct
      rcases List.mem_cons.mp listed with rfl | later
      · simp
      · have other : first.name ≠ b.name := fun same =>
          distinct.1 (same ▸ List.mem_map_of_mem later)
        rw [List.find?_cons_of_neg (by simpa using other)]
        exact further distinct.2 later

theorem Distinct.isKind {bs : Bindings} (distinct : bs.Distinct) {b : Binding}
    (listed : b ∈ bs.list) (kind : BindingKind) : bs.isKind kind b.name ↔ b.kind = kind := by
  simp [Bindings.isKind, distinct.get? listed]

/-! ## The factory and the quotes -/

theorem add_factory? (bs : Bindings) (kind : BindingKind) (name : String) :
    (bs.add kind name).factory? = bs.factory? := by
  unfold Bindings.add
  split <;> rfl

theorem add_quote (bs : Bindings) (kind : BindingKind) (name : String) :
    (bs.add kind name).quote = bs.quote := by
  unfold Bindings.add
  split <;> rfl

/-- The factory is called what some specifier calls what it takes. -/
theorem factory?_specifier {f : String} (known : (collect config source tree).factory? = some f) :
    ∃ spec there, Node.Within tree spec ∧ spec.kind = .importSpecifier ∧
      specifierNames? source spec = some (there, f) := by
  let FromSpecifier (bs : Bindings) : Prop := ∀ f, bs.factory? = some f →
    ∃ spec there, Node.Within tree spec ∧ spec.kind = .importSpecifier ∧
      specifierNames? source spec = some (there, f)
  have closed : Closed source tree FromSpecifier := by
    refine ⟨fun bs kind name before f known => ?_, ?_⟩
    · exact before f (add_factory? bs kind name ▸ known)
    · rintro bs spec there here _ inside kind names f known
      cases known
      exact ⟨spec, there, inside, kind, names⟩
  have none_known : FromSpecifier { quote := (importQuote? source tree).getD '\'' } := by
    intro f known
    cases known
  exact ofImports_induct closed none_known f known

theorem collect_quote (tree : Node) :
    (collect config source tree).quote = (importQuote? source tree).getD '\'' :=
  ofImports_induct (P := fun bs => bs.quote = (importQuote? source tree).getD '\'')
    ⟨fun bs kind name same => (add_quote bs kind name).trans same,
      fun _ _ _ _ same _ _ _ => same⟩ rfl

end Bindings

/-! ## Imports of error helpers -/

section

variable {s : Setting}

/-- An import that is not for types alone takes names in braces from a module. -/
structure ImportsNames (source : Text) (statement : Node) (module : String) (clause braces : Node) :
    Prop where
  values : isTypeOnly statement = false
  isSource : importSource? source statement = some module
  isClause : importClause? statement = some clause
  named : namedImports? clause = some braces

/-- The import takes names from the unified module. -/
def IsTarget (s : Setting) (source : Text) (statement braces : Node) : Prop :=
  ∃ clause, ImportsNames source statement s.config.unifiedModule clause braces

/-- The import takes names from a deprecated module, and neither a default nor the module as a whole. -/
def TakesHelpers (s : Setting) (source : Text) (statement braces : Node) : Prop :=
  ∃ module ∈ s.config.deprecatedErrorModules, ∃ clause,
    ImportsNames source statement module clause braces ∧ defaultImport? clause = none ∧
      takesNamespace clause = false

theorem errorImport?_iff {statement : Node} {specs : List Node} :
    errorImport? s source statement = some specs ↔
      ∃ braces, TakesHelpers s source statement braces ∧ specs = specifiers braces := by
  constructor
  · intro found
    unfold errorImport? at found
    split at found
    · cases found
    · rename_i values
      split at found
      · rename_i module clause isSource isClause
        split at found
        · cases found
        · rename_i form
          obtain ⟨braces, named, rfl⟩ := Option.map_eq_some_iff.mp found
          simp only [Bool.or_eq_true, Bool.not_eq_true', not_or, Bool.not_eq_true,
            Bool.not_eq_false, Option.isSome_eq_false_iff, Option.isNone_iff_eq_none] at form
          obtain ⟨⟨deprecated, noDefault⟩, noNamespace⟩ := form
          exact ⟨braces, ⟨module, List.contains_iff_mem.mp deprecated, clause,
            ⟨Bool.not_eq_true _ ▸ values, isSource, isClause, named⟩, noDefault, noNamespace⟩, rfl⟩
      · cases found
  · rintro ⟨braces, ⟨module, deprecated, clause, names, noDefault, noNamespace⟩, rfl⟩
    unfold errorImport?
    rw [names.values, names.isSource, names.isClause]
    simp [deprecated, noDefault, noNamespace, names.named]

theorem isTarget_iff {statement braces : Node} : IsTarget s source statement braces ↔
    (if isTypeOnly statement || importSource? source statement != some s.config.unifiedModule then none
      else (importClause? statement).bind namedImports?) = some braces := by
  constructor
  · rintro ⟨clause, names⟩
    simp [names.values, names.isSource, names.isClause, names.named]
  · intro found
    split at found
    · cases found
    · rename_i form
      simp only [Bool.or_eq_true, bne_iff_ne, not_or, Bool.not_eq_true, Classical.not_not] at form
      obtain ⟨clause, isClause, named⟩ := Option.bind_eq_some_iff.mp found
      exact ⟨clause, form.1, form.2, isClause, named⟩

theorem not_isTarget_iff {statement : Node} : (∀ braces, ¬ IsTarget s source statement braces) ↔
    (if isTypeOnly statement || importSource? source statement != some s.config.unifiedModule then none
      else (importClause? statement).bind namedImports?) = none := by
  rw [Option.eq_none_iff_forall_ne_some]
  exact forall_congr' fun braces => not_congr isTarget_iff

/-- The names come into the first import from the unified module that has braces. -/
theorem unifiedBraces?_iff {braces : Node} : unifiedBraces? s source tree = some braces ↔
    ∃ before target after, importStatements tree = before ++ target :: after ∧
      IsTarget s source target braces ∧ ∀ m ∈ before, ∀ b, ¬ IsTarget s source m b := by
  simp only [not_isTarget_iff]
  simp only [isTarget_iff]
  exact List.findSome?_eq_some_iff

theorem unifiedBraces?_none : unifiedBraces? s source tree = none ↔
    ∀ m ∈ importStatements tree, ∀ b, ¬ IsTarget s source m b := by
  simp only [not_isTarget_iff]
  exact List.findSome?_eq_none_iff

end

/-! ## Names of error helpers -/

/-- What the name that a specifier takes is called here. -/
def importedAs? (source : Text) (spec : Node) : Option String :=
  (specifierNames? source spec).map Prod.snd

/-- The specifiers that come to the names present: the first one of each name that is missing. -/
def added (source : Text) : List String → List Node → List Node
  | _, [] => []
  | present, spec :: specs =>
    match importedAs? source spec with
    | none => added source present specs
    | some name =>
      if name ∈ present then added source present specs
      else spec :: added source (present ++ [name]) specs

theorem foldl_merge : ∀ (specs : List Node) (m : Merge),
    (specs.foldl (Merge.add source) m).moved =
      m.moved ++ (added source m.present specs).map (·.name source)
  | [], m => by simp [added]
  | spec :: specs, m => by
      rw [List.foldl_cons, foldl_merge specs, Merge.add, added, importedAs?]
      cases specifierNames? source spec with
      | none => rfl
      | some names =>
          obtain ⟨_, here⟩ := names
          simp only [Option.map_some, List.contains_eq_mem, decide_eq_true_eq]
          split <;> simp

theorem added_sublist : ∀ (specs : List Node) (present : List String),
    (added source present specs).Sublist specs
  | [], _ => List.Sublist.refl []
  | spec :: specs, present => by
      rw [added]
      split
      · exact (added_sublist specs present).cons spec
      · split
        · exact (added_sublist specs present).cons spec
        · exact (added_sublist specs _).cons_cons spec

theorem added_fresh : ∀ {specs : List Node} {present : List String} {spec : Node},
    spec ∈ added source present specs → ∃ name, importedAs? source spec = some name ∧ name ∉ present
  | [], _, _, listed => absurd listed List.not_mem_nil
  | first :: specs, present, spec, listed => by
      rw [added] at listed
      split at listed
      · exact added_fresh listed
      · rename_i name named
        split at listed
        · exact added_fresh listed
        · rename_i missing
          rcases List.mem_cons.mp listed with rfl | later
          · exact ⟨name, named, missing⟩
          · obtain ⟨name', named', missing'⟩ := added_fresh later
            exact ⟨name', named', fun there => missing' (List.mem_append_left _ there)⟩

/-- A name that is missing comes in with one specifier. -/
theorem added_once {name : String} : ∀ {specs : List Node} {present : List String} {spec : Node}, spec ∈ specs →
    importedAs? source spec = some name → name ∉ present →
      ∃ a, (added source present specs).filter (importedAs? source · = some name) = [a]
  | [], _, _, listed, _, _ => absurd listed List.not_mem_nil
  | first :: specs, present, spec, listed, named, missing => by
      have later (other : importedAs? source first ≠ some name) : spec ∈ specs := by
        rcases List.mem_cons.mp listed with rfl | later
        · exact absurd named other
        · exact later
      rw [added]
      split
      · rename_i unnamed
        exact added_once (later (by rw [unnamed]; simp)) named missing
      · rename_i name' named'
        split
        · rename_i there
          refine added_once (later ?_) named missing
          rintro same
          rw [named'] at same
          exact missing (Option.some.inj same ▸ there)
        · by_cases same : name' = name
          · subst same
            -- no more of that name, for it is present from here on
            have none : (added source (present ++ [name']) specs).filter
                (importedAs? source · = some name') = [] := by
              refine List.filter_eq_nil_iff.mpr fun a among => ?_
              obtain ⟨name, named, fresh⟩ := added_fresh among
              rw [named]
              simp only [Option.some.injEq, decide_eq_true_eq]
              rintro rfl
              exact fresh (by simp)
            refine ⟨first, ?_⟩
            rw [List.filter_cons_of_pos (by simpa using named'), none]
          · have other : importedAs? source first ≠ some name := by
              rw [named']
              simpa using same
            rw [List.filter_cons_of_neg (by simpa using other)]
            exact added_once (later other) named (by simpa [missing] using fun h => same h.symm)

end ClientMigration.Codemod
