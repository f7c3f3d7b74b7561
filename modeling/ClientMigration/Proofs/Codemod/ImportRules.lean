/-
# Proofs.Codemod.ImportRules -- one statement after the other

The first two rules go through the import statements and change some of them; the
factory comes in at most once on the way (`placed_once`). What either rule does to
one statement has one form: some names of the clause go, the others stay in their
order, and the factory may stand among them or in an import in front (`Trims`).
-/
import ClientMigration.Proofs.Codemod.Settled

namespace ClientMigration.Codemod

set_option autoImplicit false

open Script

variable {s : Setting} {source : Text} {tree : Node}

/-! ## Going through the statements -/

section

variable {f : Bool → Node → Option StatementEdits}

/-- The statements that a rule changes, with what it makes of each. -/
def changesOf (f : Bool → Node → Option StatementEdits) : Bool → List Node → List (Node × StatementEdits)
  | _, [] => []
  | pending, n :: ns =>
    match f pending n with
    | none => changesOf f pending ns
    | some r => (n, r) :: changesOf f (pending && !r.placed) ns

theorem statementEdits_eq (pending : Bool) (ns : List Node) :
    statementEdits f pending ns = (changesOf f pending ns).flatMap (·.2.edits) := by
  induction ns generalizing pending with
  | nil => rfl
  | cons n ns rest =>
      unfold statementEdits changesOf
      cases f pending n with
      | none => exact rest pending
      | some r => simp only [List.flatMap_cons, rest]

theorem changesOf_sublist (pending : Bool) (ns : List Node) :
    ((changesOf f pending ns).map Prod.fst).Sublist ns := by
  induction ns generalizing pending with
  | nil => exact List.Sublist.slnil
  | cons n ns rest =>
      unfold changesOf
      cases f pending n with
      | none => exact (rest pending).cons n
      | some r => exact (rest _).cons_cons n

theorem mem_changesOf {pending : Bool} {ns : List Node} {n : Node} {r : StatementEdits}
    (changed : (n, r) ∈ changesOf f pending ns) : n ∈ ns ∧ ∃ pending, f pending n = some r := by
  refine ⟨(changesOf_sublist pending ns).subset (List.mem_map_of_mem changed), ?_⟩
  induction ns generalizing pending with
  | nil => exact absurd changed List.not_mem_nil
  | cons m ns rest =>
      unfold changesOf at changed
      cases made : f pending m with
      | none =>
          rw [made] at changed
          exact rest changed
      | some r' =>
          simp only [made] at changed
          rcases List.mem_cons.mp changed with here | later
          · cases here
            exact ⟨pending, made⟩
          · exact rest later

/-- How often the factory comes in. -/
def timesPlaced (f : Bool → Node → Option StatementEdits) (pending : Bool) (ns : List Node) : Nat :=
  (changesOf f pending ns).countP (·.2.placed)

theorem never_placed (settled : ∀ n r, f false n = some r → r.placed = false) (ns : List Node) :
    timesPlaced f false ns = 0 := by
  unfold timesPlaced
  induction ns with
  | nil => rfl
  | cons n ns rest =>
      unfold changesOf
      cases made : f false n with
      | none => exact rest
      | some r => simpa [settled n r made] using rest

/-- The factory comes in once if some statement takes it, and else not at all. -/
theorem placed_once (settled : ∀ n r, f false n = some r → r.placed = false) (ns : List Node) :
    timesPlaced f true ns ≤ 1 ∧
      (0 < timesPlaced f true ns ↔ ∃ n ∈ ns, ∃ r, f true n = some r ∧ r.placed = true) := by
  have later := never_placed settled
  unfold timesPlaced at later ⊢
  induction ns with
  | nil => simp [changesOf]
  | cons n ns rest =>
      unfold changesOf
      cases made : f true n with
      | none => simpa [made] using rest
      | some r =>
          cases placed : r.placed with
          | false => simpa [made, placed] using rest
          | true => simp [made, placed, later]

end

/-! ## One statement -/

theorem legacyImport?_iff {statement clause : Node} {module : String} :
    legacyImport? s source statement = some (module, clause) ↔
      isTypeOnly statement = false ∧ importSource? source statement = some module ∧
        s.config.legacyModules.contains module = true ∧ importClause? statement = some clause := by
  unfold legacyImport?
  cases typed : isTypeOnly statement with
  | true => simp
  | false =>
      cases source' : importSource? source statement with
      | none => simp
      | some module' =>
          cases clause' : importClause? statement with
          | none => simp
          | some clause'' =>
              by_cases legacy : module' ∈ s.config.legacyModules
              · simp [legacy]
                grind
              · simp [legacy]
                grind

/-- A legacy import without some of its names, and with the factory where it comes in. -/
structure Trimmed where
  module : String
  clause : Node
  place : FactoryPlace
  /-- The names in braces that stay, in front of the factory and behind it. -/
  front : List String
  back : List String

namespace Trimmed

def names (t : Trimmed) (s : Setting) : List String :=
  t.front ++ (if t.place == .within then [s.factoryName] else []) ++ t.back

def default? (t : Trimmed) (source : Text) (dropsDefault : String → Bool) : Option String :=
  ((defaultImport? t.clause).map (·.name source)).filter (!dropsDefault ·)

end Trimmed

/-- A rule trims a legacy import: it takes out the default and the names in braces that go, and brings
the factory in. -/
structure Trims (s : Setting) (source : Text) (dropsDefault : String → Bool) (dropsNamed : Node → Bool)
    (statement : Node) (t : Trimmed) (r : StatementEdits) : Prop where
  value : isTypeOnly statement = false
  module : importSource? source statement = some t.module
  legacy : s.config.legacyModules.contains t.module = true
  clause : importClause? statement = some t.clause
  kept : ((importedSpecifiers statement).filter (!dropsNamed ·)).map (·.name source) =
    t.front ++ t.back
  placed : r.placed = (t.place != .nowhere)
  within : t.place = .within ↔ r.placed = true ∧ t.module = s.config.unifiedModule
  edits : r.edits = (if t.place == .before then [factoryImport s statement] else []) ++
    [clauseEdit source statement t.clause
      (clauseText? (t.default? source dropsDefault) (t.names s))]

theorem importedSpecifiers_eq {statement clause : Node} (found : importClause? statement = some clause) :
    importedSpecifiers statement = ((namedImports? clause).map specifiers).getD [] := by
  unfold importedSpecifiers
  rw [found, Option.bind_some]

/-- The factory is placed by an import's module. -/
theorem factoryPlace_within_iff {pending : Bool} {module : String} :
    factoryPlace s source tree pending module = .within ↔
      factoryPlace s source tree pending module ≠ .nowhere ∧ module = s.config.unifiedModule := by
  unfold factoryPlace
  split
  · simp
  · split <;> simp_all

/-- What the rule for defaults makes of a statement. -/
theorem defaultStatement_trims {pending : Bool} {statement : Node} {r : StatementEdits}
    (made : defaultStatement s source tree pending statement = some r) :
    ∃ t, Trims s source s.bindings.isDroppable (fun _ => false) statement t r ∧
      takesNamespace t.clause = false ∧ t.place = factoryPlace s source tree pending t.module := by
  unfold defaultStatement at made
  split at made
  · cases made
  · rename_i module clause legacy
    obtain ⟨value, source', isLegacy, isClause⟩ := legacyImport?_iff.mp legacy
    split at made
    · cases made
    · rename_i noNamespace
      split at made
      · cases made
      · rename_i default_ isDefault
        simp only at made
        split at made
        · cases made
        · cases made
          have texts : ((namedImports? clause).map fun n => (specifiers n).map (·.name source)).getD [] =
              (importedSpecifiers statement).map (·.name source) := by
            rw [importedSpecifiers_eq isClause]
            cases namedImports? clause <;> rfl
          refine ⟨⟨module, clause, factoryPlace s source tree pending module, [],
            (importedSpecifiers statement).map (·.name source)⟩,
            ⟨value, source', isLegacy, isClause, by simp, rfl, ?_, ?_⟩, by simpa using noNamespace, rfl⟩
          · simpa using factoryPlace_within_iff
          · have default?_eq : (if s.bindings.isDroppable (default_.name source) = true then none
                else some (default_.name source)) =
                (((some default_).map (·.name source)).filter (!s.bindings.isDroppable ·)) := by
              rw [Option.map_some, Option.filter]
              cases s.bindings.isDroppable (default_.name source) <;> rfl
            have names_eq (place : FactoryPlace) (named : List String) :
                (if (place == .within) = true then s.factoryName :: named else named) =
                  [] ++ (if (place == .within) = true then [s.factoryName] else []) ++ named := by
              split <;> rfl
            rw [texts, default?_eq, names_eq]
            simp only [Trimmed.default?, Trimmed.names, isDefault]

/-- What the rule for names in braces makes of a statement. -/
theorem namedStatement_trims {pending : Bool} {statement : Node} {r : StatementEdits}
    (made : namedStatement s source tree pending statement = some r) :
    ∃ t, Trims s source (fun _ => false) (dropsSpecifier s source) statement t r ∧
      (namedImports? t.clause).isSome = true ∧ t.place = factoryPlace s source tree pending t.module := by
  unfold namedStatement at made
  split at made
  · cases made
  · rename_i module clause legacy
    obtain ⟨value, source', isLegacy, isClause⟩ := legacyImport?_iff.mp legacy
    split at made
    · cases made
    · rename_i list braces
      simp only at made
      split at made
      · cases made
      · cases made
        have specs : importedSpecifiers statement = specifiers list := by
          rw [importedSpecifiers_eq isClause, braces]
          rfl
        generalize kept_eq : ((specifiers list).filter (!dropsSpecifier s source ·)).map
          (·.name source) = kept
        generalize ((specifiers list).takeWhile (!dropsSpecifier s source ·)).length = at_
        refine ⟨⟨module, clause, factoryPlace s source tree pending module, kept.take at_,
          kept.drop at_⟩, ⟨value, source', isLegacy, isClause, ?_, rfl, ?_, ?_⟩, by simp [braces], rfl⟩
        · rw [specs, kept_eq, List.take_append_drop]
        · simpa using factoryPlace_within_iff
        · have names_eq (place : FactoryPlace) :
              (if (place == .within) = true then kept.take at_ ++ s.factoryName :: kept.drop at_
                else kept) =
              kept.take at_ ++ (if (place == .within) = true then [s.factoryName] else []) ++
                kept.drop at_ := by
            split <;> simp
          have default?_eq (o : Option String) : o.filter (fun _ => !false) = o := by
            cases o <;> rfl
          rw [names_eq]
          simp only [Trimmed.default?, Trimmed.names, default?_eq]

end ClientMigration.Codemod
