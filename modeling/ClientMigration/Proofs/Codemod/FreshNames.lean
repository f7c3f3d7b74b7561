/-
# Proofs.Codemod.FreshNames -- what the name of a declared client can collide with

A client is declared at the head of a function's body under the first candidate
that no name of a value in the body spells (`freshName_first`); there always is
one, since the candidates with a number are all different and the body uses
finitely many names.

Names that patterns bind are names of values, so the body's variables, the
parameters of the functions in it and the heads of its loops are all avoided.
Two things are not looked at: the parameters of the function itself, which stand
outside its body, and declarations that stand under a word of another kind, such
as classes. `declared_name_taken_iff` says that the name is taken exactly if it
is one of those; `parameter_redeclared` is a function that gets a second
declaration of its parameter.
-/
import Mathlib
import ClientMigration.Proofs.Script.NameWords
import ClientMigration.Proofs.Script.Scope
import ClientMigration.Proofs.Codemod.Redirect

namespace ClientMigration

set_option autoImplicit false

open Script

namespace Script

namespace Kind

/-- Forms that are declared under the word in their name part. -/
def hasOwnName : Kind → Bool
  | .functionDeclaration | .generatorFunctionDeclaration | .functionSignature
  | .functionExpression | .generatorFunction
  | .classDeclaration | .abstractClassDeclaration | .classExpression
  | .interfaceDeclaration | .typeAliasDeclaration | .enumDeclaration
  | .moduleDeclaration | .namespaceDeclaration | .typeParameter => true
  | _ => false

end Kind

namespace Node

/-- The places of a tree down to the names of values. -/
def valuePlaces (tree : Node) : List Place := tree.places (fun n => !n.kind.namesValue) []

/-- Whether the form is declared as `name`. -/
def isDeclaredAs (source : Text) (name : String) (n : Node) : Bool :=
  n.kind.hasOwnName && (n.child? .name).any (·.name source == name)

/-- Whether the form is declared as `name` by a word that names no value, as a class is. -/
def isTypeDeclaredAs (source : Text) (name : String) (n : Node) : Bool :=
  n.kind.hasOwnName &&
    (n.child? .name).any fun word => word.name source == name && !word.kind.namesValue

end Node

end Script

namespace Codemod

variable {source : Text} {name : String}

/-! ## The names used in a tree -/

theorem mem_usedNamesIn {ns : List Node} :
    name ∈ usedNamesIn source ns ↔ ∃ n ∈ ns, name ∈ usedNames source n := by
  induction ns with
  | nil => simp [usedNamesIn]
  | cons n ns rest => simp [usedNamesIn, rest]

theorem usedNames_word {n : Node} (word : n.kind.namesValue) :
    usedNames source n = [n.name source] := by
  cases n with
  | mk k r a b cs =>
      unfold usedNames
      split <;> simp_all [Kind.namesValue, Node.kind]

theorem usedNames_inner {n : Node} (inner : ¬ n.kind.namesValue) :
    usedNames source n = usedNamesIn source n.children := by
  cases n with
  | mk k r a b cs =>
      unfold usedNames
      split <;> simp_all [Kind.namesValue, Node.kind, Node.children]

theorem child_used {n c : Node} (inner : ¬ n.kind.namesValue) (isChild : c ∈ n.children)
    (used : name ∈ usedNames source c) : name ∈ usedNames source n := by
  rw [usedNames_inner inner]
  exact mem_usedNamesIn.mpr ⟨c, isChild, used⟩

/-- A name is used if a word that names a value spells it. -/
theorem mem_usedNames {n : Node} : ∀ {above : List Node},
    name ∈ usedNames source n ↔
      ∃ p ∈ n.places (fun n => !n.kind.namesValue) above,
        p.node.kind.namesValue ∧ p.node.name source = name := by
  induction n using Node.byChildren with
  | step n below =>
      intro above
      by_cases word : n.kind.namesValue = true
      · rw [usedNames_word word, List.mem_singleton]
        constructor
        · rintro rfl
          exact ⟨⟨n, above⟩, Node.mem_places.mpr (Or.inl rfl), word, rfl⟩
        · rintro ⟨p, inside, _, same⟩
          rcases Node.mem_places.mp inside with rfl | ⟨enters, _⟩
          · exact same.symm
          · simp [word] at enters
      · rw [usedNames_inner word, mem_usedNamesIn]
        constructor
        · rintro ⟨c, isChild, used⟩
          obtain ⟨p, inside, spelled⟩ := (@below c isChild (n :: above)).mp used
          exact ⟨p, Node.mem_places.mpr (Or.inr ⟨by simp [word], c, isChild, inside⟩), spelled⟩
        · rintro ⟨p, inside, isWord, same⟩
          rcases Node.mem_places.mp inside with rfl | ⟨_, c, isChild, lower⟩
          · exact absurd isWord word
          · exact ⟨c, isChild, (below c isChild).mpr ⟨p, lower, isWord, same⟩⟩

/-- What is used below a place that the walk comes to is used in the tree. -/
theorem place_used {tree : Node} : ∀ {above : List Node} {p : Place},
    p ∈ tree.places (fun n => !n.kind.namesValue) above → name ∈ usedNames source p.node →
      name ∈ usedNames source tree := by
  induction tree using Node.byChildren with
  | step n below =>
      intro above p inside used
      rcases Node.mem_places.mp inside with rfl | ⟨enters, c, isChild, lower⟩
      · exact used
      · exact child_used (by simpa using enters) isChild (below c isChild lower used)

/-! ## Names that are declared -/

theorem namesValue_iff {k : Kind} : k.namesValue = true ↔
    k = .identifier ∨ k = .shorthandPropertyIdentifier ∨ k = .shorthandPropertyIdentifierPattern := by
  unfold Kind.namesValue
  split <;> simp_all

theorem bindingRole?_inner {k : Kind} {r : Role} (role : bindingRole? k = some r) : ¬ k.namesValue := by
  intro word
  rcases namesValue_iff.mp word with same | same | same <;> rw [same] at role <;> cases role

theorem bindsAll_inner {k : Kind} (all : bindsAll k) : ¬ k.namesValue := by
  intro word
  rcases namesValue_iff.mp word with same | same | same <;> rw [same] at all <;> cases all

theorem isFunction_inner {k : Kind} (isFunction : k.isFunction) : ¬ k.namesValue := by
  intro word
  rcases namesValue_iff.mp word with same | same | same <;> rw [same] at isFunction <;> cases isFunction

theorem parameters?_mem {n c : Node} (found : n.parameters? = some c) : c ∈ n.children := by
  unfold Node.parameters? at found
  rw [Option.orElse_eq_or] at found
  rcases Option.or_eq_some_iff.mp found with first | ⟨_, second⟩
  · exact Node.child?_mem first
  · exact Node.child?_mem second

/-- What a pattern binds is used in it. -/
theorem binds_used {n : Node} (binds : Binds source name n) : name ∈ usedNames source n := by
  induction binds with
  | @word n kind spelled =>
      have word : n.kind.namesValue := by
        rcases kind with kind | kind <;> rw [kind]
      rw [usedNames_word word, spelled]
      exact List.mem_singleton.mpr rfl
  | part role isPart _ used => exact child_used (bindingRole?_inner role) (Node.child?_mem isPart) used
  | element all isChild _ used => exact child_used (bindsAll_inner all) isChild used

/-- A name that a statement introduces is bound by a pattern in it, or is its own. -/
theorem introduces_used {n : Node} (introduces : Introduces source name n) :
    name ∈ usedNames source n ∨ n.isDeclaredAs source name := by
  rcases introduces with ⟨kind, isChild, declarator, isPart, binds⟩ | ⟨kind, own⟩
  · refine Or.inl (child_used ?_ isChild (child_used ?_ (Node.child?_mem isPart) (binds_used binds)))
    · rcases kind with kind | kind <;> rw [kind] <;> decide
    · rw [declarator]
      decide
  · have named := isNamed_iff.mpr own
    right
    rcases kind with kind | kind | kind <;> (rw [Node.isDeclaredAs, kind, named]; rfl)

/-- A name that a scope declares is used in the scope, or is the scope's own, or is the own name of
one of its parts. -/
theorem declares_used {n : Node} (declares : Declares source name n) :
    name ∈ usedNames source n ∨ n.isDeclaredAs source name ∨
      ∃ c ∈ n.children, ¬ n.kind.namesValue ∧ c.isDeclaredAs source name := by
  have part_declares {c : Node} (inner : ¬ n.kind.namesValue) (isChild : c ∈ n.children)
      (introduces : Introduces source name c) :
      name ∈ usedNames source n ∨ n.isDeclaredAs source name ∨
        ∃ c ∈ n.children, ¬ n.kind.namesValue ∧ c.isDeclaredAs source name := by
    rcases introduces_used introduces with used | own
    · exact Or.inl (child_used inner isChild used)
    · exact Or.inr (Or.inr ⟨c, isChild, inner, own⟩)
  cases declares with
  | parameter isFunction isGiven binds =>
      exact Or.inl (child_used (isFunction_inner isFunction) (parameters?_mem isGiven)
        (binds_used binds))
  | ownName kind own =>
      have named := isNamed_iff.mpr own
      refine Or.inr (Or.inl ?_)
      rcases kind with kind | kind <;> (rw [Node.isDeclaredAs, kind, named]; rfl)
  | caught kind isPart binds =>
      exact Or.inl (child_used (by rw [kind]; decide) (Node.child?_mem isPart) (binds_used binds))
  | counter kind isPart introduces =>
      exact part_declares (by rw [kind]; decide) (Node.child?_mem isPart) introduces
  | element kind _ _ isPart binds =>
      exact Or.inl (child_used (by rw [kind]; decide) (Node.child?_mem isPart) (binds_used binds))
  | statement kind isChild introduces => exact part_declares (by rw [kind]; decide) isChild introduces

/-- A form's own name is used in it, or is a word that names no value. -/
theorem isDeclaredAs_cases {n : Node} (own : n.isDeclaredAs source name) :
    name ∈ usedNames source n ∨ n.isTypeDeclaredAs source name := by
  simp only [Node.isDeclaredAs, Bool.and_eq_true, Option.any_eq_true, beq_iff_eq] at own
  obtain ⟨hasName, word, found, same⟩ := own
  by_cases isValue : word.kind.namesValue = true
  · have inner : ¬ n.kind.namesValue := by
      intro word
      unfold Kind.namesValue at word
      split at word <;> simp_all [Kind.hasOwnName]
    refine Or.inl (child_used inner (Node.child?_mem found) ?_)
    rw [usedNames_word isValue, same]
    exact List.mem_singleton.mpr rfl
  · right
    simp [Node.isTypeDeclaredAs, hasName, found, same, isValue]

/-! ## The first candidate that is free -/

/-- Of two candidates that are equal one is the second, since the numbers have digits and are different. -/
theorem candidateName_injOn (preferred : String) :
    Set.InjOn (candidateName preferred) {i | i ≠ 1} := by
  have numbered {n : Nat} : preferred ≠ preferred ++ Nat.repr n := by
    intro same
    have digits : "" = Nat.repr n :=
      (String.append_right_inj preferred).mp ((String.append_empty).trans same)
    exact Nat.repr_ne_empty digits.symm
  rintro (_ | _ | i) first (_ | _ | j) second same
  · rfl
  · exact absurd rfl second
  · exact absurd same numbered
  · exact absurd rfl first
  · rfl
  · exact absurd rfl first
  · exact absurd same.symm numbered
  · exact absurd rfl second
  · have digits : Nat.repr (i + 2) = Nat.repr (j + 2) := (String.append_right_inj preferred).mp same
    exact Nat.repr_inj.mp digits

/-- Among two more candidates than there are names one is free. -/
theorem exists_free (used : List String) (preferred : String) :
    ∃ k ≤ used.toFinset.card + 1, candidateName preferred k ∉ used := by
  by_contra none
  simp only [not_exists, not_and, not_not] at none
  let tried := (Finset.range (used.toFinset.card + 2)).erase 1
  have inside : Set.MapsTo (candidateName preferred) tried used.toFinset := by
    intro k among
    have bound := Finset.mem_range.mp (Finset.mem_of_mem_erase among)
    exact List.mem_toFinset.mpr (none k (by omega))
  have distinct : Set.InjOn (candidateName preferred) tried :=
    (candidateName_injOn preferred).mono fun k among => Finset.ne_of_mem_erase among
  have fits := Finset.card_le_card_of_injOn _ inside distinct
  rw [Finset.card_erase_of_mem (Finset.mem_range.mpr (by omega)), Finset.card_range] at fits
  omega

/-- The search stops at the first free candidate if it has the fuel to come to one. -/
theorem firstFree?_first (used : List String) (preferred : String) : ∀ (fuel i : Nat),
    (∃ k, i ≤ k ∧ k < i + fuel ∧ candidateName preferred k ∉ used) →
      ∃ k, firstFree? used preferred fuel i = some (candidateName preferred k) ∧
        candidateName preferred k ∉ used ∧
        ∀ j, i ≤ j → j < k → candidateName preferred j ∈ used
  | 0, i, ⟨k, lower, upper, free⟩ => by omega
  | fuel + 1, i, ⟨k, lower, upper, free⟩ => by
      unfold firstFree?
      by_cases taken : candidateName preferred i ∈ used
      · have later : i ≠ k := fun same => free (same ▸ taken)
        obtain ⟨first, found, firstFree, before⟩ :=
          firstFree?_first used preferred fuel (i + 1) ⟨k, by omega, by omega, free⟩
        rw [if_pos (List.contains_iff_mem.mpr taken)]
        refine ⟨first, found, firstFree, fun j after earlier => ?_⟩
        by_cases here : i = j
        · exact here ▸ taken
        · exact before j (by omega) earlier
      · rw [if_neg fun contained => taken (List.contains_iff_mem.mp contained)]
        exact ⟨i, rfl, taken, fun j after before => by omega⟩

/-- The fuel suffices, so the search ends with a candidate. -/
theorem firstFree?_some (used : List String) (preferred : String) :
    ∃ k, firstFree? used preferred (used.length + 2) 0 = some (candidateName preferred k) ∧
      candidateName preferred k ∉ used ∧ (∀ j < k, candidateName preferred j ∈ used) ∧
      k ≤ used.toFinset.card + 1 := by
  obtain ⟨free, bound, isFree⟩ := exists_free used preferred
  have short := used.toFinset_card_le
  obtain ⟨k, found, kFree, before⟩ := firstFree?_first used preferred (used.length + 2) 0
    ⟨free, Nat.zero_le free, by omega, isFree⟩
  refine ⟨k, found, kFree, fun j earlier => before j (Nat.zero_le j) earlier, ?_⟩
  by_contra far
  exact isFree (before free (Nat.zero_le free) (by omega))

theorem freshName_first (used : List String) (preferred : String) :
    ∃ k, freshName used preferred = candidateName preferred k ∧
      candidateName preferred k ∉ used ∧ ∀ j < k, candidateName preferred j ∈ used := by
  obtain ⟨k, found, free, before, _⟩ := firstFree?_some used preferred
  exact ⟨k, by rw [freshName, found, Option.getD_some], free, before⟩

/-! ## The name of a declared client -/

/-- A body uses a name: a word that names a value spells it. -/
def UsedIn (source : Text) (body : Node) (name : String) : Prop :=
  ∃ p ∈ body.valuePlaces, p.node.kind.namesValue ∧ p.node.name source = name

/-- A body declares a name, for itself or for a scope in it, or something in it has that name. -/
def DeclaredIn (source : Text) (body : Node) (name : String) : Prop :=
  ∃ p ∈ body.valuePlaces, p.node.declares source name ∨ p.node.isDeclaredAs source name

/-- Whether a function's own parameters bind a name. -/
def isGiven (source : Text) (function : Node) (name : String) : Bool :=
  function.parameters?.any (·.binds source name)

/-- A client's name is taken if the function's parameters bind it or its body declares or uses it. -/
def Taken (source : Text) (function body : Node) (name : String) : Prop :=
  isGiven source function name ∨ DeclaredIn source body name ∨ UsedIn source body name

theorem usedIn_iff {body : Node} : UsedIn source body name ↔ name ∈ usedNames source body :=
  mem_usedNames.symm

/-- A name that a body does not use is declared in it only by words that name no value. -/
theorem declaredIn_iff {body : Node} (unused : ¬ UsedIn source body name) :
    DeclaredIn source body name ↔ ∃ p ∈ body.valuePlaces, p.node.isTypeDeclaredAs source name := by
  have free {p : Place} (inside : p ∈ body.valuePlaces) : name ∉ usedNames source p.node :=
    fun used => unused (usedIn_iff.mpr (place_used inside used))
  have own_iff {p : Place} (inside : p ∈ body.valuePlaces)
      (own : p.node.isDeclaredAs source name) : p.node.isTypeDeclaredAs source name :=
    (isDeclaredAs_cases own).resolve_left (free inside)
  constructor
  · rintro ⟨p, inside, declares | own⟩
    · rcases declares_used (declares_iff.mp declares) with used | own | ⟨c, isChild, inner, own⟩
      · exact absurd used (free inside)
      · exact ⟨p, inside, own_iff inside own⟩
      · have below : ⟨c, p.node :: p.above⟩ ∈ body.valuePlaces :=
          Node.child_mem_places inside (by simpa using inner) isChild
        exact ⟨_, below, own_iff below own⟩
    · exact ⟨p, inside, own_iff inside own⟩
  · rintro ⟨p, inside, own⟩
    refine ⟨p, inside, Or.inr ?_⟩
    simp only [Node.isTypeDeclaredAs, Node.isDeclaredAs, Bool.and_eq_true,
      Option.any_eq_true] at own ⊢
    obtain ⟨hasName, word, found, same, _⟩ := own
    exact ⟨hasName, word, found, same⟩

/-- A client is declared under the first candidate that the body does not use, and that name is taken
exactly if the function's parameters bind it or a class or a type in the body has it. -/
theorem declared_name_taken_iff (s : Setting) (source : Text) (tree body : Node) (name : String)
    (planned : (body, name) ∈ (redirected s tree source).declared) :
    (∃ p ∈ callPlaces tree, isClientCall s source p ∧ bodyAround? p = some body) ∧
      (∃ e ∈ callSiteEdits s tree source, declarationEdit? s source body name = some e) ∧
      (∃ k, name = candidateName s.config.localClientName k ∧
        ∀ j < k, UsedIn source body (candidateName s.config.localClientName j)) ∧
      ¬ UsedIn source body name ∧
      ∀ function, function.child? .body = some body →
        (Taken source function body name ↔
          isGiven source function name ∨
            ∃ p ∈ body.valuePlaces, p.node.isTypeDeclaredAs source name) := by
  have needed : s.bindings.replaces .client := by
    by_contra notNeeded
    simp [redirected, notNeeded] at planned
  obtain ⟨p, visited, e, made, declares⟩ := (redirected_planned needed).declared _ planned
  obtain ⟨k, found, free, before⟩ := freshName_first (usedNames source body) s.config.localClientName
  have fresh : name = candidateName s.config.localClientName k := declares.fresh.trans found
  have unused : ¬ UsedIn source body name := by
    rw [usedIn_iff, fresh]
    exact free
  refine ⟨⟨p, visited, declares.call, declares.around⟩, ⟨e, made, declares.edit⟩,
    ⟨k, fresh, fun j earlier => usedIn_iff.mpr (before j earlier)⟩, unused, ?_⟩
  intro function _
  unfold Taken
  rw [declaredIn_iff unused]
  simp only [unused, or_false]

/-- A function that makes a call and has a parameter of the preferred name. -/
def givenClient : Text := "import c from'@/lib/api'\nfunction f(client)\x7bc.get()\x7d".toList

def givenBody : Node :=
  .mk .statementBlock (some .body) 43 52
    [.mk (.token "\x7b") none 43 44 [],
     .mk .expressionStatement none 44 51
      [.mk .callExpression none 44 51
        [.mk .memberExpression (some .function) 44 49
          [.mk .identifier (some .object) 44 45 [],
           .mk (.token ".") none 45 46 [],
           .mk .propertyIdentifier (some .property) 46 49 []],
         .mk .arguments (some .arguments) 49 51
          [.mk (.token "(") none 49 50 [], .mk (.token ")") none 50 51 []]]],
     .mk (.token "\x7d") none 51 52 []]

def givenFunction : Node :=
  .mk .functionDeclaration none 25 52
    [.mk (.token "function") none 25 33 [],
     .mk .identifier (some .name) 34 35 [],
     .mk .formalParameters (some .parameters) 35 43
      [.mk (.token "(") none 35 36 [],
       .mk .requiredParameter none 36 42 [.mk .identifier (some .pattern) 36 42 []],
       .mk (.token ")") none 42 43 []],
     givenBody]

def givenTree : Node :=
  .mk .program none 0 52
    [.mk .importStatement none 0 24
      [.mk (.token "import") none 0 6 [],
       .mk .importClause none 7 8 [.mk .identifier none 7 8 []],
       .mk (.token "from") none 9 13 [],
       .mk .string (some .source) 13 24 []],
     givenFunction]

def givenSetting : Setting := ⟨{}, .default, .collect {} givenClient givenTree⟩

theorem given_client_planned :
    (givenBody, "client") ∈ (redirected givenSetting givenTree givenClient).declared := by
  decide +kernel

theorem given_name_taken_iff :
    (givenBody, "client") ∈ (redirected givenSetting givenTree givenClient).declared ∧
      ¬ UsedIn givenClient givenBody "client" ∧
      (Taken givenClient givenFunction givenBody "client" ↔
        isGiven givenClient givenFunction "client" ∨
          ∃ p ∈ givenBody.valuePlaces, p.node.isTypeDeclaredAs givenClient "client") := by
  obtain ⟨_, _, _, unused, taken⟩ :=
    declared_name_taken_iff givenSetting givenClient givenTree givenBody "client" given_client_planned
  exact ⟨given_client_planned, unused, taken givenFunction rfl⟩

/-- The parameter is declared a second time. -/
theorem parameter_redeclared :
    ¬ ∀ (s : Setting) (source : Text) (tree function body : Node) (name : String),
      (body, name) ∈ (redirected s tree source).declared → function.child? .body = some body →
        ¬ Taken source function body name := by
  intro distinct
  refine distinct givenSetting givenClient givenTree givenFunction givenBody "client"
    given_client_planned rfl (Or.inl ?_)
  decide +kernel

end Codemod

end ClientMigration
