/-
# Proofs.Script.Scope -- which scopes declare a name, and which of them are looked at

A pattern binds the words in it, however deep they stand (`Binds`); a statement
introduces the variables of its declarators, or its own name (`Introduces`). A
scope declares what its parameters, its head or its statements bring in
(`Declares`), and a place is shadowed exactly if a scope above it does so
(`isShadowed_iff`).

The cases of a switch share one scope as well, and an abstract class is a class.
Neither is looked at (`Overlooks`): `case_declaration_unshadowed` is a call on a
stub that is declared in front of it, in the same case, and is sent to another
client all the same.
-/
import ClientMigration.Script.Fault
import ClientMigration.Script.Scope
import ClientMigration.Proofs.Script.Places

namespace ClientMigration.Script

set_option autoImplicit false

variable {source : Text} {name : String} {n : Node}

/-! ## Patterns -/

theorem bindsAt_eq (name : String) (r : Role) (cs : List Node) :
    Node.bindsAt source name r cs = (cs.find? (·.role == some r)).any (·.binds source name) := by
  induction cs with
  | nil => rfl
  | cons c cs rest =>
      rw [Node.bindsAt, List.find?_cons, rest]
      cases plays : c.role == some r
      · rw [if_neg Bool.false_ne_true]
      · rw [if_pos rfl, Option.any_some]

theorem bindsAmong_eq (name : String) (cs : List Node) :
    Node.bindsAmong source name cs = cs.any (·.binds source name) := by
  induction cs with
  | nil => rfl
  | cons c cs rest => rw [Node.bindsAmong, rest, List.any_cons]

/-- The part of a pattern that binds what the pattern binds; none for patterns with many. -/
def bindingRole? : Kind → Option Role
  | .requiredParameter | .optionalParameter => some .pattern
  | .pairPattern => some .value
  | .assignmentPattern | .objectAssignmentPattern => some .left
  | _ => none

def bindsAll : Kind → Bool
  | .formalParameters | .objectPattern | .arrayPattern | .restPattern => true
  | _ => false

theorem binds_word {name : String}
    (word : n.kind = .identifier ∨ n.kind = .shorthandPropertyIdentifierPattern) :
    n.binds source name = (n.name source == name) := by
  cases n with
  | mk kind r a b cs =>
      rcases word with same | same <;> cases same <;> rw [Node.binds]

theorem binds_role {name : String} {r : Role} (role : bindingRole? n.kind = some r) :
    n.binds source name = (n.child? r).any (·.binds source name) := by
  cases n with
  | mk kind r' a b cs =>
      rw [Node.kind] at role
      unfold bindingRole? at role
      split at role <;> cases role <;> exact (by rw [Node.binds, bindsAt_eq]; rfl)

theorem binds_all {name : String} (all : bindsAll n.kind) :
    n.binds source name = n.children.any (·.binds source name) := by
  cases n with
  | mk kind r' a b cs =>
      rw [Node.kind] at all
      unfold bindsAll at all
      split at all
      · rw [Node.binds, bindsAmong_eq]
        rfl
      · rw [Node.binds, bindsAmong_eq]
        rfl
      · rw [Node.binds, bindsAmong_eq]
        rfl
      · rw [Node.binds, bindsAmong_eq]
        rfl
      · cases all

/-- What binds a name is the word itself, or leaves it to one of its parts or to all of them. -/
theorem binds_form {name : String} (bound : n.binds source name) :
    (n.kind = .identifier ∨ n.kind = .shorthandPropertyIdentifierPattern) ∨
      (∃ r, bindingRole? n.kind = some r) ∨ bindsAll n.kind := by
  cases n with
  | mk kind r a b cs =>
      unfold Node.binds at bound
      split at bound <;> try (rename_i same; cases same)
      all_goals simp_all [Node.kind, bindingRole?, bindsAll]

/-- A pattern binds a name: it is the word, or the part of it that matters binds the name, or one of
its elements does. -/
inductive Binds (source : Text) (name : String) : Node → Prop
  | word {n : Node} (kind : n.kind = .identifier ∨ n.kind = .shorthandPropertyIdentifierPattern)
      (spelled : n.name source = name) : Binds source name n
  /-- A parameter without its type and default, the value of a pair, a pattern without its default. -/
  | part {n c : Node} {r : Role} (role : bindingRole? n.kind = some r) (isPart : n.child? r = some c)
      (binds : Binds source name c) : Binds source name n
  /-- Parameters, an object, an array or what is left of one. -/
  | element {n c : Node} (all : bindsAll n.kind) (isChild : c ∈ n.children)
      (binds : Binds source name c) : Binds source name n

theorem Binds.bound (binds : Binds source name n) : n.binds source name = true := by
  induction binds with
  | word kind spelled =>
      rw [binds_word kind, spelled]
      exact beq_self_eq_true name
  | part role isPart _ bound =>
      rw [binds_role role, isPart]
      exact bound
  | element all isChild _ bound =>
      rw [binds_all all]
      exact List.any_eq_true.mpr ⟨_, isChild, bound⟩

theorem binds_iff : n.binds source name = true ↔ Binds source name n := by
  refine ⟨fun bound => ?_, Binds.bound⟩
  induction n using Node.byChildren with
  | step n below =>
      rcases binds_form bound with word | ⟨r, role⟩ | all
      · rw [binds_word word] at bound
        exact .word word (eq_of_beq bound)
      · rw [binds_role role] at bound
        obtain ⟨c, isPart, bound⟩ := (Option.any_eq_true _ _).mp bound
        exact .part role isPart (below c (Node.child?_mem isPart) bound)
      · rw [binds_all all] at bound
        obtain ⟨c, isChild, bound⟩ := List.any_eq_true.mp bound
        exact .element all isChild (below c isChild bound)

theorem child?_binds_iff {r : Role} : (n.child? r).any (·.binds source name) = true ↔
    ∃ c, n.child? r = some c ∧ Binds source name c := by
  simp only [Option.any_eq_true, binds_iff]

/-! ## Statements and scopes -/

/-- A node's name part spells a name. -/
def IsNamed (source : Text) (name : String) (n : Node) : Prop :=
  ∃ word, n.child? .name = some word ∧ word.name source = name

theorem isNamed_iff : (n.child? .name).any (·.name source == name) = true ↔ IsNamed source name n := by
  simp only [Option.any_eq_true, beq_iff_eq, IsNamed]

/-- A statement introduces a name: one of its declarators binds it, or it is the name of the function
or the class. -/
inductive Introduces (source : Text) (name : String) (n : Node) : Prop
  | variable {d pattern : Node} (kind : n.kind = .lexicalDeclaration ∨ n.kind = .variableDeclaration)
      (isChild : d ∈ n.children) (declarator : d.kind = .variableDeclarator)
      (isPart : d.child? .name = some pattern) (binds : Binds source name pattern)
  | named (kind : n.kind = .functionDeclaration ∨ n.kind = .generatorFunctionDeclaration ∨
        n.kind = .classDeclaration) (own : IsNamed source name n)

theorem introduces_iff : n.declaresInBlock source name = true ↔ Introduces source name n := by
  have declarators : (n.namedChildren.any fun d =>
      d.kind == .variableDeclarator && (d.child? .name).any (·.binds source name)) = true ↔
      ∃ d ∈ n.children, d.kind = .variableDeclarator ∧
        ∃ pattern, d.child? .name = some pattern ∧ Binds source name pattern := by
    simp only [List.any_eq_true, Bool.and_eq_true, beq_iff_eq, child?_binds_iff]
    constructor
    · rintro ⟨d, isChild, form⟩
      exact ⟨d, (List.mem_filter.mp isChild).1, form⟩
    · rintro ⟨d, isChild, declarator, form⟩
      exact ⟨d, List.mem_filter.mpr ⟨isChild, by simp [Node.isNamed, declarator, Kind.isNamed]⟩,
        declarator, form⟩
  constructor
  · intro declared
    unfold Node.declaresInBlock at declared
    split at declared
    · rename_i kind
      obtain ⟨d, isChild, declarator, pattern, isPart, binds⟩ := declarators.mp declared
      exact .variable (Or.inl kind) isChild declarator isPart binds
    · rename_i kind
      obtain ⟨d, isChild, declarator, pattern, isPart, binds⟩ := declarators.mp declared
      exact .variable (Or.inr kind) isChild declarator isPart binds
    · rename_i kind
      exact .named (Or.inl kind) (isNamed_iff.mp declared)
    · rename_i kind
      exact .named (Or.inr (Or.inl kind)) (isNamed_iff.mp declared)
    · rename_i kind
      exact .named (Or.inr (Or.inr kind)) (isNamed_iff.mp declared)
    · cases declared
  · rintro (⟨kind | kind, isChild, declarator, isPart, binds⟩ | ⟨kind | kind | kind, own⟩)
    · simpa only [Node.declaresInBlock, kind] using
        declarators.mpr ⟨_, isChild, declarator, _, isPart, binds⟩
    · simpa only [Node.declaresInBlock, kind] using
        declarators.mpr ⟨_, isChild, declarator, _, isPart, binds⟩
    · simpa only [Node.declaresInBlock, kind] using isNamed_iff.mpr own
    · simpa only [Node.declaresInBlock, kind] using isNamed_iff.mpr own
    · simpa only [Node.declaresInBlock, kind] using isNamed_iff.mpr own

/-- A scope declares a name for what it encloses. -/
inductive Declares (source : Text) (name : String) (n : Node) : Prop
  | parameter {given : Node} (isFunction : n.kind.isFunction) (isGiven : n.parameters? = some given)
      (binds : Binds source name given)
  /-- A function that is a value knows its own name. -/
  | ownName (kind : n.kind = .functionExpression ∨ n.kind = .generatorFunction)
      (own : IsNamed source name n)
  | caught {pattern : Node} (kind : n.kind = .catchClause)
      (isPart : n.child? .parameter = some pattern) (binds : Binds source name pattern)
  | counter {head : Node} (kind : n.kind = .forStatement) (isPart : n.child? .initializer = some head)
      (introduces : Introduces source name head)
  /-- What a loop runs through is declared if a keyword says so. -/
  | element {pattern : Node} {keyword : String} (kind : n.kind = .forInStatement)
      (declaring : keyword ∈ ["const", "let", "var"]) (has : n.hasToken keyword)
      (isPart : n.child? .left = some pattern) (binds : Binds source name pattern)
  | statement {statement : Node} (kind : n.kind = .statementBlock) (isChild : statement ∈ n.children)
      (introduces : Introduces source name statement)

theorem Introduces.isNamed (introduces : Introduces source name n) : n.isNamed := by
  rcases introduces with ⟨kind | kind, -, -, -, -⟩ | ⟨kind | kind | kind, -⟩ <;>
    (rw [Node.isNamed, kind]; rfl)

theorem child?_introduces_iff {r : Role} : (n.child? r).any (·.declaresInBlock source name) = true ↔
    ∃ c, n.child? r = some c ∧ Introduces source name c := by
  simp only [Option.any_eq_true, introduces_iff]

theorem namesItself_iff : n.namesItself source name = true ↔
    (n.kind = .functionExpression ∨ n.kind = .generatorFunction) ∧ IsNamed source name n := by
  rw [Node.namesItself, Bool.and_eq_true, Bool.or_eq_true, beq_iff_eq, beq_iff_eq, isNamed_iff]

theorem declares_iff : n.declares source name = true ↔ Declares source name n := by
  constructor
  · intro declared
    unfold Node.declares at declared
    split at declared
    · rename_i isFunction
      rcases Bool.or_eq_true_iff.mp declared with own | given
      · exact .ownName (namesItself_iff.mp own).1 (namesItself_iff.mp own).2
      · obtain ⟨given, isGiven, binds⟩ := (Option.any_eq_true _ _).mp given
        exact .parameter isFunction isGiven (binds_iff.mp binds)
    · split at declared
      · rename_i kind
        obtain ⟨statement, isChild, introduces⟩ := List.any_eq_true.mp declared
        exact .statement kind (List.mem_filter.mp isChild).1 (introduces_iff.mp introduces)
      · rename_i kind
        obtain ⟨pattern, isPart, binds⟩ := child?_binds_iff.mp declared
        exact .caught kind isPart binds
      · rename_i kind
        obtain ⟨head, isPart, introduces⟩ := child?_introduces_iff.mp declared
        exact .counter kind isPart introduces
      · rename_i kind
        obtain ⟨declaring, bound⟩ := Bool.and_eq_true_iff.mp declared
        obtain ⟨pattern, isPart, binds⟩ := child?_binds_iff.mp bound
        rcases Bool.or_eq_true_iff.mp declaring with declaring | has
        · rcases Bool.or_eq_true_iff.mp declaring with has | has
          · exact .element kind (by simp) has isPart binds
          · exact .element kind (by simp) has isPart binds
        · exact .element kind (by simp) has isPart binds
      · cases declared
  · intro declares
    unfold Node.declares
    cases declares with
    | parameter isFunction isGiven binds =>
        rw [if_pos isFunction, isGiven, Option.any_some, binds_iff.mpr binds, Bool.or_true]
    | ownName kind own =>
        have isFunction : n.kind.isFunction := by rcases kind with kind | kind <;> rw [kind] <;> rfl
        rw [if_pos isFunction, namesItself_iff.mpr ⟨kind, own⟩, Bool.true_or]
    | caught kind isPart binds =>
        rw [if_neg (by rw [kind]; decide)]
        simpa only [kind] using child?_binds_iff.mpr ⟨_, isPart, binds⟩
    | counter kind isPart introduces =>
        rw [if_neg (by rw [kind]; decide)]
        simpa only [kind] using child?_introduces_iff.mpr ⟨_, isPart, introduces⟩
    | element kind declaring has isPart binds =>
        have declares : (n.hasToken "const" || n.hasToken "let" || n.hasToken "var") = true := by
          rcases List.mem_cons.mp declaring with rfl | declaring
          · simp [has]
          · rcases List.mem_cons.mp declaring with rfl | declaring
            · simp [has]
            · simp [List.mem_singleton.mp declaring ▸ has]
        rw [if_neg (by rw [kind]; decide)]
        simpa only [kind, declares, Bool.true_and] using child?_binds_iff.mpr ⟨_, isPart, binds⟩
    | statement kind isChild introduces =>
        rw [if_neg (by rw [kind]; decide)]
        simpa only [kind, Node.namedChildren] using List.any_eq_true.mpr
          ⟨_, List.mem_filter.mpr ⟨isChild, introduces.isNamed⟩, introduces_iff.mpr introduces⟩

/-! ## Shadowed places -/

/-- The statements that share a scope with each other: those of a block, or of all cases of a switch. -/
def statements (scope : Node) : List Node :=
  match scope.kind with
  | .statementBlock => scope.children
  | .switchBody =>
    (scope.children.filter fun c => c.kind == .switchCase || c.kind == .switchDefault).flatMap
      Node.children
  | _ => []

/-- A scope declares a name for what it encloses and is not looked at for it. A `var` among the cases
is not theirs: it belongs to the function. -/
inductive Overlooks (source : Text) (name : String) (scope : Node) : Prop
  | case {statement : Node} (kind : scope.kind = .switchBody) (stands : statement ∈ statements scope)
      (ownScope : statement.kind ≠ .variableDeclaration) (introduces : Introduces source name statement)
  | abstractClass {statement : Node} (stands : statement ∈ statements scope)
      (isClass : statement.kind = .abstractClassDeclaration) (own : IsNamed source name statement)

/-- A place is shadowed exactly if a scope above it declares its name in one of the ways that are looked
at, and so follows the scopes exactly if no declaration that is overlooked stands alone. -/
theorem isShadowed_iff (source : Text) (p : Place) :
    (p.isShadowed source = true ↔ ∃ scope ∈ p.above, Declares source (p.node.name source) scope) ∧
    ((p.isShadowed source = true ↔ ∃ scope ∈ p.above,
        Declares source (p.node.name source) scope ∨ Overlooks source (p.node.name source) scope) ↔
      ((∃ scope ∈ p.above, Overlooks source (p.node.name source) scope) →
        ∃ scope ∈ p.above, Declares source (p.node.name source) scope)) := by
  have seen : p.isShadowed source = true ↔
      ∃ scope ∈ p.above, Declares source (p.node.name source) scope := by
    simp only [Place.isShadowed, List.any_eq_true, declares_iff]
  refine ⟨seen, ?_⟩
  rw [seen]
  constructor
  · rintro follows ⟨scope, isAbove, overlooked⟩
    exact follows.mpr ⟨scope, isAbove, Or.inr overlooked⟩
  · intro covered
    constructor
    · rintro ⟨scope, isAbove, declares⟩
      exact ⟨scope, isAbove, Or.inl declares⟩
    · rintro ⟨scope, isAbove, declares | overlooked⟩
      · exact ⟨scope, isAbove, declares⟩
      · exact covered ⟨scope, isAbove, overlooked⟩

instance (source : Text) (name : String) (n : Node) : Decidable (IsNamed source name n) :=
  decidable_of_iff _ isNamed_iff

instance (source : Text) (name : String) (n : Node) : Decidable (Introduces source name n) :=
  decidable_of_iff _ introduces_iff

instance (source : Text) (name : String) (scope : Node) : Decidable (Declares source name scope) :=
  decidable_of_iff _ declares_iff

instance (source : Text) (name : String) (scope : Node) : Decidable (Overlooks source name scope) :=
  decidable_of_iff
    (∃ statement ∈ statements scope,
      (scope.kind = .switchBody ∧ statement.kind ≠ .variableDeclaration ∧
        Introduces source name statement) ∨
      (statement.kind = .abstractClassDeclaration ∧ IsNamed source name statement))
    ⟨fun ⟨_, stands, found⟩ => found.elim
        (fun case => .case case.1 stands case.2.1 case.2.2) (fun cls => .abstractClass stands cls.1 cls.2),
      fun overlooked => match overlooked with
        | .case kind stands ownScope introduces => ⟨_, stands, Or.inl ⟨kind, ownScope, introduces⟩⟩
        | .abstractClass stands isClass own => ⟨_, stands, Or.inr ⟨isClass, own⟩⟩⟩

/-- Whether a text reads as a tree that passes a test. -/
def readsAs (markup : Bool) (source : Text) (test : Node → Bool) : Bool :=
  match parse markup source with
  | .ok tree => test tree
  | .error _ => false

theorem readsAs_some {markup : Bool} {test : Node → Bool} (checked : readsAs markup source test = true) :
    ∃ tree, parse markup source = .ok tree ∧ test tree = true := by
  unfold readsAs at checked
  split at checked
  · rename_i tree reads
    exact ⟨tree, reads, checked⟩
  · cases checked

/-- A call on a stub that is declared in front of it, in the same case. -/
def stubInCase : Text :=
  ("import apiClient from '@/lib/api';\nexport function f(k) \x7b\n  switch (k) \x7b\n    case 1:\n" ++
    "      const apiClient = stub();\n      return apiClient.get('/x');\n  \x7d\n\x7d\n").toList

/-- Whether a name in the module is taken for free although a case declares it. -/
def overlooksCase : Bool :=
  readsAs false stubInCase fun tree => decide (∃ p ∈ tree.allPlaces, p.node.kind = .identifier ∧
    p.isShadowed stubInCase = false ∧
    ∃ scope ∈ p.above, Overlooks stubInCase (p.node.name stubInCase) scope)

/-- Shadowing does not always follow the scopes. -/
theorem case_declaration_unshadowed :
    ¬ ∀ (source : Text) (tree : Node) (p : Place), parse false source = .ok tree → p ∈ tree.allPlaces →
      p.node.kind = .identifier → (p.isShadowed source = true ↔ ∃ scope ∈ p.above,
        Declares source (p.node.name source) scope ∨ Overlooks source (p.node.name source) scope) := by
  intro follows
  have checked : overlooksCase = true := by decide +kernel
  obtain ⟨tree, reads, passed⟩ := readsAs_some checked
  obtain ⟨p, isPlace, kind, free, scope, isAbove, overlooked⟩ := of_decide_eq_true passed
  have shadowed := (follows stubInCase tree p reads isPlace kind).mpr
    ⟨scope, isAbove, Or.inr overlooked⟩
  rw [free] at shadowed
  cases shadowed

end ClientMigration.Script
