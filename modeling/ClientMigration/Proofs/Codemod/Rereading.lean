/-
# Proofs.Codemod.Rereading -- what becomes of a tree when a rule's text is read

A rule works on bytes; the rule after it sees a new tree. `Kept` relates the two:
a node stands where it stood, with the words and parts that it had, unless the
rule has put a name or a call in its stead; a body has the clients that the rule
declares in it; imports come and go. `Faithful` says of a reader that this is
what it makes of the texts of a run, and that its trees have the shape of trees
of modules.

Whatever stands in the new tree was there before, or the rule has put it in, or
it is part of an import (`origin`). Scopes declare no fewer names than before
(`Unswapped.declares`), so a reference that is free in the new tree was free in
the old one.
-/
import Mathlib.Data.List.Forall2
import ClientMigration.Proofs.Codemod.Imports
import ClientMigration.Proofs.Codemod.Fitting
import ClientMigration.Proofs.Codemod.Run
import ClientMigration.Proofs.Script.Scope

namespace ClientMigration.Codemod

set_option autoImplicit false

open Script

/-! ## What a rule changes -/

/-- The changes that a rule makes in a tree outside the imports. -/
structure Changes where
  /-- What comes in the stead of a node below one of the given kind. -/
  swap : Kind → Node → Text → Prop
  /-- What a literal becomes. -/
  respell : Node → Text → Prop
  /-- The name of a client that a block gets. -/
  declare : Node → String → Prop
  /-- What is swapped is the head of a member or a call. -/
  form : ∀ {k n new}, swap k n new →
    (k = .memberExpression ∧ n.kind = .identifier ∧ n.plays .object) ∨ n.kind = .callExpression

namespace Changes

def none : Changes where
  swap := fun _ _ _ => False
  respell := fun _ _ => False
  declare := fun _ _ => False
  form := False.elim

def ofCalls (s : Setting) (tree : Node) (source : Text) : Changes where
  swap := fun k n new => (k = .memberExpression ∧ n.kind = .identifier ∧ n.plays .object) ∧
    ⟨n.start, n.stop, new⟩ ∈ callSiteEdits s tree source
  respell := fun _ _ => False
  declare := fun block name => (block, name) ∈ (redirected s tree source).declared
  form := fun swaps => Or.inl swaps.1

def ofAccessor (s : Setting) (tree : Node) (source : Text) : Changes where
  swap := fun _ n new => n.kind = .callExpression ∧
    ⟨n.start, n.stop, new⟩ ∈ accessorEdits s tree source
  respell := fun _ _ => False
  declare := fun _ _ => False
  form := fun swaps => Or.inr swaps.1

def ofPaths (config : Config) (tree : Node) (source : Text) : Changes where
  swap := fun _ _ _ => False
  respell := fun n new => ⟨n.start, n.stop, new⟩ ∈ pathEdits config tree source
  declare := fun _ _ => False
  form := False.elim

/-- The changes of each rule; those for imports make none outside them. -/
def of (s : Setting) (tree : Node) (source : Text) : Rule → Changes
  | .callSites => ofCalls s tree source
  | .authAccessor => ofAccessor s tree source
  | .versionPrefix => ofPaths s.config tree source
  | .defaultImport | .namedImport | .errorImport => none

end Changes

/-! ## What stands there afterwards -/

/-- A name called on one string. -/
inductive IsInlineCall : Node → Prop
  | mk {r : Option Role} {a b : Nat} {f f' l l' o o' s s' c c' : Nat} :
      IsInlineCall (.mk .callExpression r a b
        [.mk .identifier (some .function) f f' [],
         .mk .arguments (some .arguments) l l'
          [.mk (.token "(") none o o' [], .mk .string none s s' [], .mk (.token ")") none c c' []]])

/-- A constant `name` that is given what a call on a string makes. -/
inductive IsClient (text : Text) (name : String) : Node → Prop
  | mk {a b k k' d d' n n' e e' c c' : Nat} {call : Node} (inline : IsInlineCall call)
      (spelled : String.ofList (text.slice n n') = name) :
      IsClient text name (.mk .lexicalDeclaration none a b
        [.mk (.token "const") none k k' [],
         .mk .variableDeclarator none d d'
          [.mk .identifier (some .name) n n' [], .mk (.token "=") none e e' [], call],
         .mk (.token ";") none c c' []])

/-- How a text that was put in for a name or a call reads: as a name or as a call. -/
inductive Stands (text new : Text) : Node → Prop
  | name {r : Option Role} {a b : Nat} (word : '(' ∉ new) (spelled : text.slice a b = new) :
      Stands text new (.mk .identifier r a b [])
  | call {n : Node} (inline : IsInlineCall n) : Stands text new n

/-- What a node shows of itself is as it was, or as the rule has left it. -/
structure AsItWas (ch : Changes) (source text : Text) (n n' : Node) : Prop where
  kind : n'.kind = n.kind
  word : n.kind.isWord → n'.text text = n.text source
  respelled : isLiteral n → ∀ new, ch.respell n new → n'.text text = new
  /-- Where nothing is put in, a literal is as it was unless it is respelled. -/
  literal : isLiteral n → (∀ new, ¬ ch.respell n new) → (∀ k m new, ¬ ch.swap k m new) →
    n'.text text = n.text source
  declared : ∀ name, ch.declare n name → ∃ d ∈ n'.children, IsClient text name d

/-- What may come in among the parts of a node: imports into the module, declared clients into a
block. -/
def Comes (ch : Changes) (text : Text) (parent : Kind) (n : Node) : Prop :=
  (parent = .program ∧ n.kind = .importStatement) ∨
    (parent = .statementBlock ∧ ∃ block name, ch.declare block name ∧ IsClient text name n)

mutual

/-- The node of the new tree stands for the node of the old one. -/
def Kept (ch : Changes) (source text : Text) (parent : Kind) : Node → Node → Prop
  | .mk k r a b cs, n' =>
    n'.role = r ∧
      ((∃ new, ch.swap parent (.mk k r a b cs) new ∧ Stands text new n') ∨
        ((∀ new, ¬ ch.swap parent (.mk k r a b cs) new) ∧
          AsItWas ch source text (.mk k r a b cs) n' ∧ KeptIn ch source text k cs n'.children))

/-- The parts of a node of the new tree stand for those of a node of the old one, in their order. -/
def KeptIn (ch : Changes) (source text : Text) (parent : Kind) : List Node → List Node → Prop
  | [], ms => ∀ m ∈ ms, Comes ch text parent m
  | n :: ns, ms =>
    (parent = .program ∧ n.kind = .importStatement ∧ KeptIn ch source text parent ns ms) ∨
      ∃ put m later, ms = put ++ m :: later ∧ (∀ d ∈ put, Comes ch text parent d) ∧
        Kept ch source text parent n m ∧ KeptIn ch source text parent ns later

end

/-- A node that stands for another which was not swapped. -/
structure Unswapped (ch : Changes) (source text : Text) (parent : Kind) (n n' : Node) : Prop extends
    AsItWas ch source text n n' where
  role : n'.role = n.role
  fixed : ∀ new, ¬ ch.swap parent n new
  children : KeptIn ch source text n.kind n.children n'.children

/-! ## What is known of the trees of modules -/

/-- Forms whose name part is a single word. -/
def hasWordName (k : Kind) : Bool :=
  match k with
  | .functionDeclaration | .generatorFunctionDeclaration | .classDeclaration
  | .functionExpression | .generatorFunction => true
  | _ => false

/-- In a node and its parts, what is to be a single word is one. -/
def HasWordNames (n : Node) : Prop :=
  ∀ m, (m = n ∨ m ∈ n.children) → hasWordName m.kind → ∀ c ∈ m.child? .name, c.kind.isWord

/-- A tree that a module can have. -/
structure Regular (tree : Node) : Prop where
  wellFormed : tree.WellFormed
  root : tree.kind = .program
  /-- What is taken of an object is a word. -/
  property : ∀ p ∈ tree.allPlaces, p.node.kind = .memberExpression →
    ∀ c ∈ p.node.child? .property, c.kind.isWord
  ownName : ∀ p ∈ tree.allPlaces, hasWordName p.node.kind → ∀ c ∈ p.node.child? .name, c.kind.isWord
  /-- Something stands in front of a function's body. -/
  head : ∀ p ∈ tree.allPlaces, p.node.kind.isFunction →
    ∀ b ∈ p.node.child? .body, p.node.start < b.start

/-! ## Parts that stand for parts -/

section

variable {ch : Changes} {source text : Text} {k : Kind} {n n' : Node}

theorem kept_cases (kept : Kept ch source text k n n') :
    (n'.role = n.role ∧ ∃ new, ch.swap k n new ∧ Stands text new n') ∨
      Unswapped ch source text k n n' := by
  cases n with
  | mk kind r a b cs =>
      unfold Kept at kept
      obtain ⟨role, swapped | ⟨fixed, as, children⟩⟩ := kept
      · exact Or.inl ⟨role, swapped⟩
      · exact Or.inr ⟨as, role, fixed, children⟩

theorem kept_role (kept : Kept ch source text k n n') : n'.role = n.role := by
  rcases kept_cases kept with ⟨role, _⟩ | same
  · exact role
  · exact same.role

/-- What is neither a call nor the object of a member is not swapped. -/
theorem Kept.unswapped (kept : Kept ch source text k n n')
    (noHead : ¬ (k = .memberExpression ∧ n.kind = .identifier ∧ n.plays .object))
    (noCall : n.kind ≠ .callExpression) : Unswapped ch source text k n n' := by
  rcases kept_cases kept with ⟨_, new, swap, _⟩ | same
  · rcases ch.form swap with head | call
    · exact absurd head noHead
    · exact absurd call noCall
  · exact same

theorem KeptIn.back {c' : Node} : ∀ {ns ms : List Node}, KeptIn ch source text k ns ms → c' ∈ ms →
    Comes ch text k c' ∨ ∃ c ∈ ns, Kept ch source text k c c'
  | [], ms, kept, inside => Or.inl (kept c' inside)
  | n :: ns, ms, kept, inside => by
      rcases kept with ⟨_, _, rest⟩ | ⟨put, m, later, rfl, comes, first, rest⟩
      · rcases rest.back inside with new | ⟨c, listed, kept⟩
        · exact Or.inl new
        · exact Or.inr ⟨c, List.mem_cons_of_mem _ listed, kept⟩
      · rcases List.mem_append.mp inside with new | old
        · exact Or.inl (comes c' new)
        · rcases List.mem_cons.mp old with rfl | further
          · exact Or.inr ⟨n, by simp, first⟩
          · rcases rest.back further with new | ⟨c, listed, kept⟩
            · exact Or.inl new
            · exact Or.inr ⟨c, List.mem_cons_of_mem _ listed, kept⟩

/-- What is no import of the module has a part that stands for it. -/
theorem KeptIn.forth_of {c : Node} (stays : ¬ (k = .program ∧ c.kind = .importStatement)) :
    ∀ {ns ms : List Node}, KeptIn ch source text k ns ms → c ∈ ns →
      ∃ c' ∈ ms, Kept ch source text k c c'
  | n :: ns, ms, kept, inside => by
      rcases kept with ⟨root, isImport, rest⟩ | ⟨put, m, later, rfl, _, first, rest⟩
      · rcases List.mem_cons.mp inside with rfl | further
        · exact absurd ⟨root, isImport⟩ stays
        · exact rest.forth_of stays further
      · rcases List.mem_cons.mp inside with rfl | further
        · exact ⟨m, by simp, first⟩
        · obtain ⟨c', listed, kept⟩ := rest.forth_of stays further
          exact ⟨c', by simp [listed], kept⟩

theorem KeptIn.forth {c : Node} (inner : k ≠ .program) {ns ms : List Node}
    (kept : KeptIn ch source text k ns ms) (inside : c ∈ ns) :
    ∃ c' ∈ ms, Kept ch source text k c c' :=
  kept.forth_of (fun moved => inner moved.1) inside

/-- Nothing comes in but into the module and into blocks. -/
theorem comes_nowhere (noModule : k ≠ .program) (noBlock : k ≠ .statementBlock) :
    ¬ Comes ch text k n := by
  rintro (⟨root, _⟩ | ⟨block, _⟩)
  · exact noModule root
  · exact noBlock block

theorem child?_plays {c : Node} {r : Role} (found : n.child? r = some c) : c.plays r :=
  @List.find?_some Node (fun c => c.role == some r) c n.children found

theorem child?_role {c : Node} {r : Role} (found : n.child? r = some c) : c.role = some r :=
  eq_of_beq (child?_plays found)

theorem plays_child? {c : Node} {r : Role} (wf : n.WellFormed) (isChild : c ∈ n.children)
    (plays : c.role = some r) : n.child? r = some c := by
  cases found : n.child? r with
  | none =>
      have other := List.find?_eq_none.mp found c isChild
      simp [plays] at other
  | some d =>
      have same := wf.role_unique (Node.child?_mem found) isChild (child?_plays found)
        (beq_iff_eq.mpr plays)
      rw [same]

variable {parent : Kind}

/-- The part that plays a role in the new tree stands for the one that did in the old tree. -/
theorem Unswapped.child?_back (same : Unswapped ch source text parent n n') (wf : n.WellFormed)
    (noModule : n.kind ≠ .program) (noBlock : n.kind ≠ .statementBlock) {r : Role} {c' : Node}
    (found : n'.child? r = some c') : ∃ c, n.child? r = some c ∧ Kept ch source text n.kind c c' := by
  rcases same.children.back (Node.child?_mem found) with new | ⟨c, isChild, kept⟩
  · exact absurd new (comes_nowhere noModule noBlock)
  · have plays : c.role = some r := by rw [← kept_role kept, child?_role found]
    exact ⟨c, plays_child? wf isChild plays, kept⟩

theorem Unswapped.child?_forth (same : Unswapped ch source text parent n n') (wf : n'.WellFormed)
    (noModule : n.kind ≠ .program) {r : Role} {c : Node} (found : n.child? r = some c) :
    ∃ c', n'.child? r = some c' ∧ Kept ch source text n.kind c c' := by
  obtain ⟨c', isChild, kept⟩ := same.children.forth noModule (Node.child?_mem found)
  have plays : c'.role = some r := by rw [kept_role kept, child?_role found]
  exact ⟨c', plays_child? wf isChild plays, kept⟩

theorem Unswapped.name (same : Unswapped ch source text parent n n') (isWord : n.kind.isWord) :
    n'.name text = n.name source := by
  rw [Node.name, Node.name, same.word isWord]

/-- A word that is not the object of a member keeps its spelling. -/
theorem kept_word (kept : Kept ch source text k n n') (isWord : n.kind.isWord)
    (noHead : ¬ (k = .memberExpression ∧ n.plays .object)) : n'.name text = n.name source := by
  have noCall : n.kind ≠ .callExpression := by
    intro call
    rw [call] at isWord
    cases isWord
  exact (kept.unswapped (fun head => noHead ⟨head.1, head.2.2⟩) noCall).name isWord

/-! ## Declared names -/

/-- A pattern of the new tree binds what the pattern that it stands for binds. -/
theorem kept_binds {name : String} (ch : Changes) (n : Node) : ∀ {k : Kind} {n' : Node},
    Kept ch source text k n n' → n'.WellFormed → k ≠ .memberExpression → n.binds source name →
      n'.binds text name := by
  induction n using Node.byChildren with
  | step n below =>
      intro k n' kept wf noMember bound
      -- nothing that binds a name is swapped: it is no call, and the object of no member
      have noCall : n.kind ≠ .callExpression := by
        intro call
        rcases binds_form bound with (word | word) | ⟨r, role⟩ | all <;> simp_all [bindingRole?, bindsAll]
      have same := kept.unswapped (fun head => noMember head.1) noCall
      rcases binds_form bound with word | ⟨r, role⟩ | all
      · have isWord : n.kind.isWord := by
          rcases word with kind | kind <;> rw [kind] <;> rfl
        rw [binds_word word] at bound
        rw [binds_word (same.kind ▸ word), same.name isWord]
        exact bound
      · rw [binds_role role] at bound
        rw [binds_role (same.kind ▸ role)]
        obtain ⟨c, found, bound⟩ := (Option.any_eq_true _ _).mp bound
        have noModule : n.kind ≠ .program := by
          intro root
          rw [root] at role
          cases role
        obtain ⟨c', found', kept'⟩ := same.child?_forth wf noModule found
        have inner : n.kind ≠ .memberExpression := by
          intro member
          rw [member] at role
          cases role
        refine (Option.any_eq_true _ _).mpr ⟨c', found', ?_⟩
        exact below c (Node.child?_mem found) kept' (wf.child (Node.child?_mem found')).2.1 inner bound
      · rw [binds_all all] at bound
        rw [binds_all (same.kind ▸ all)]
        obtain ⟨c, isChild, bound⟩ := List.any_eq_true.mp bound
        have noModule : n.kind ≠ .program := by
          intro root
          rw [root] at all
          cases all
        obtain ⟨c', isChild', kept'⟩ := same.children.forth noModule isChild
        have inner : n.kind ≠ .memberExpression := by
          intro member
          rw [member] at all
          cases all
        refine List.any_eq_true.mpr ⟨c', isChild', ?_⟩
        exact below c isChild kept' (wf.child isChild').2.1 inner bound

theorem namedChild_of_kind {c : Node} (isChild : c ∈ n.children) (named : c.kind.isNamed) :
    c ∈ n.namedChildren :=
  List.mem_filter.mpr ⟨isChild, named⟩

/-- A form that is declared under a single word keeps that word. -/
theorem Unswapped.ownName {name : String} (same : Unswapped ch source text parent n n')
    (wf : n'.WellFormed) (noModule : n.kind ≠ .program) (noMember : n.kind ≠ .memberExpression)
    (word : ∀ c ∈ n.child? .name, c.kind.isWord)
    (named : (n.child? .name).any (·.name source == name)) :
    (n'.child? .name).any (·.name text == name) := by
  obtain ⟨c, found, spelled⟩ := (Option.any_eq_true _ _).mp named
  obtain ⟨c', found', kept⟩ := same.child?_forth wf noModule found
  have kept_spelling := kept_word kept (word c found) (fun head => noMember head.1)
  refine (Option.any_eq_true _ _).mpr ⟨c', found', ?_⟩
  rw [kept_spelling]
  exact spelled

/-- A part that binds a name has a part that stands for it and binds the name. -/
theorem Unswapped.part_binds {name : String} {r : Role} (same : Unswapped ch source text parent n n')
    (wf : n'.WellFormed) (noModule : n.kind ≠ .program) (noMember : n.kind ≠ .memberExpression)
    (bound : (n.child? r).any (·.binds source name)) : (n'.child? r).any (·.binds text name) := by
  obtain ⟨c, found, bound⟩ := (Option.any_eq_true _ _).mp bound
  obtain ⟨c', found', kept⟩ := same.child?_forth wf noModule found
  refine (Option.any_eq_true _ _).mpr ⟨c', found', ?_⟩
  exact kept_binds ch c kept (wf.child (Node.child?_mem found')).2.1 noMember bound

theorem Unswapped.declaresInBlock {name : String} (same : Unswapped ch source text parent n n')
    (wf : n'.WellFormed) (word : hasWordName n.kind → ∀ c ∈ n.child? .name, c.kind.isWord)
    (declared : n.declaresInBlock source name) : n'.declaresInBlock text name := by
  have declarators (noModule : n.kind ≠ .program)
      (some_declarator : n.namedChildren.any fun d =>
        d.kind == .variableDeclarator && (d.child? .name).any (·.binds source name)) :
      n'.namedChildren.any fun d =>
        d.kind == .variableDeclarator && (d.child? .name).any (·.binds text name) := by
    obtain ⟨d, isChild, found⟩ := List.any_eq_true.mp some_declarator
    rw [Bool.and_eq_true, beq_iff_eq] at found
    obtain ⟨kind, bound⟩ := found
    obtain ⟨d', isChild', kept⟩ := same.children.forth noModule (namedChild_mem isChild)
    have d_same := kept.unswapped (fun head => by simp [kind] at head) (by simp [kind])
    have kind' : d'.kind = .variableDeclarator := d_same.kind.trans kind
    refine List.any_eq_true.mpr ⟨d', namedChild_of_kind isChild' (by rw [kind']; rfl), ?_⟩
    rw [Bool.and_eq_true, beq_iff_eq]
    exact ⟨kind', d_same.part_binds (wf.child isChild').2.1 (by simp [kind]) (by simp [kind]) bound⟩
  unfold Node.declaresInBlock at declared ⊢
  rw [same.kind]
  split at declared
  · rename_i kind
    exact declarators (by simp [kind]) declared
  · rename_i kind
    exact declarators (by simp [kind]) declared
  · rename_i kind
    exact same.ownName wf (by simp [kind]) (by simp [kind]) (word (by rw [kind]; rfl)) declared
  · rename_i kind
    exact same.ownName wf (by simp [kind]) (by simp [kind]) (word (by rw [kind]; rfl)) declared
  · rename_i kind
    exact same.ownName wf (by simp [kind]) (by simp [kind]) (word (by rw [kind]; rfl)) declared
  · cases declared

theorem parameters?_eq : n.parameters? = (n.child? .parameters).or (n.child? .parameter) := by
  rw [Node.parameters?, Option.orElse_eq_or]

/-- What a function is given stands for what the function was given. -/
theorem Unswapped.parameters_bind {name : String} (same : Unswapped ch source text parent n n')
    (wf : n.WellFormed) (wf' : n'.WellFormed) (isFunction : n.kind.isFunction)
    (bound : n.parameters?.any (·.binds source name)) : n'.parameters?.any (·.binds text name) := by
  have noModule : n.kind ≠ .program := by
    intro root
    rw [root] at isFunction
    cases isFunction
  have noMember : n.kind ≠ .memberExpression := by
    intro member
    rw [member] at isFunction
    cases isFunction
  have noBlock : n.kind ≠ .statementBlock := by
    intro block
    rw [block] at isFunction
    cases isFunction
  rw [parameters?_eq] at bound ⊢
  cases found : n.child? .parameters with
  | some c =>
      rw [found] at bound
      have bound : (n.child? .parameters).any (·.binds source name) := by rwa [found]
      obtain ⟨c', found', bound'⟩ :=
        (Option.any_eq_true _ _).mp (same.part_binds wf' noModule noMember bound)
      rw [found']
      exact bound'
  | none =>
      -- a function that had its parameters in no list has them in none now
      rw [found, Option.none_or] at bound
      have none' : n'.child? .parameters = none := by
        cases found' : n'.child? .parameters with
        | none => rfl
        | some c' =>
            obtain ⟨c, before, _⟩ := same.child?_back wf noModule noBlock found'
            rw [found] at before
            cases before
      rw [none', Option.none_or]
      exact same.part_binds wf' noModule noMember bound

/-- A scope of the new tree declares what the scope that it stands for declares. -/
theorem Unswapped.declares {name : String} (same : Unswapped ch source text parent n n')
    (wf : n.WellFormed) (wf' : n'.WellFormed)
    (word : HasWordNames n)
    (declared : n.declares source name) : n'.declares text name := by
  unfold Node.declares at declared ⊢
  rw [same.kind]
  split at declared
  · rename_i isFunction
    rw [if_pos isFunction]
    rw [Bool.or_eq_true] at declared ⊢
    refine declared.imp (fun own => ?_) (same.parameters_bind wf wf' isFunction)
    unfold Node.namesItself at own ⊢
    rw [Bool.and_eq_true] at own ⊢
    rw [same.kind]
    refine ⟨own.1, ?_⟩
    simp only [Bool.or_eq_true, beq_iff_eq] at own
    rcases own.1 with kind | kind
    · exact same.ownName wf' (by simp [kind]) (by simp [kind])
        (word n (Or.inl rfl) (by rw [kind]; rfl)) own.2
    · exact same.ownName wf' (by simp [kind]) (by simp [kind])
        (word n (Or.inl rfl) (by rw [kind]; rfl)) own.2
  · rename_i noFunction
    rw [if_neg noFunction]
    have part {c c' : Node} (isChild : c ∈ n.children) (isChild' : c' ∈ n'.children)
        (noMember : n.kind ≠ .memberExpression) (kept : Kept ch source text n.kind c c')
        (declared : c.declaresInBlock source name) : c'.declaresInBlock text name := by
      have noCall : c.kind ≠ .callExpression := by
        intro call
        simp [Node.declaresInBlock, call] at declared
      have c_same := kept.unswapped (fun head => noMember head.1) noCall
      exact c_same.declaresInBlock (wf'.child isChild').2.1 (word c (Or.inr isChild)) declared
    split at declared
    · rename_i kind
      obtain ⟨c, isChild, declared⟩ := List.any_eq_true.mp declared
      obtain ⟨c', isChild', kept⟩ := same.children.forth (by simp [kind]) (namedChild_mem isChild)
      have declared' := part (namedChild_mem isChild) isChild' (by simp [kind]) kept declared
      refine List.any_eq_true.mpr ⟨c', namedChild_of_kind isChild' ?_, declared'⟩
      unfold Node.declaresInBlock at declared'
      split at declared' <;> simp_all [Kind.isNamed]
    · rename_i kind
      exact same.part_binds wf' (by simp [kind]) (by simp [kind]) declared
    · rename_i kind
      obtain ⟨c, found, declared⟩ := (Option.any_eq_true _ _).mp declared
      obtain ⟨c', found', kept⟩ := same.child?_forth wf' (by simp [kind]) found
      refine (Option.any_eq_true _ _).mpr ⟨c', found', ?_⟩
      exact part (Node.child?_mem found) (Node.child?_mem found') (by simp [kind]) kept declared
    · rename_i kind
      rw [Bool.and_eq_true] at declared ⊢
      have token {w : String} (has : n.hasToken w) : n'.hasToken w := by
        obtain ⟨c, isChild, spelled⟩ := List.any_eq_true.mp has
        obtain ⟨c', isChild', kept⟩ := same.children.forth (by simp [kind]) isChild
        have c_kind : c.kind = .token w := eq_of_beq spelled
        have c_same := kept.unswapped (fun head => by simp [c_kind] at head) (by simp [c_kind])
        exact List.any_eq_true.mpr ⟨c', isChild', by rw [c_same.kind]; exact spelled⟩
      refine ⟨?_, same.part_binds wf' (by simp [kind]) (by simp [kind]) declared.2⟩
      have keywords := declared.1
      rw [Bool.or_eq_true, Bool.or_eq_true] at keywords ⊢
      exact keywords.imp (Or.imp token token) token
    · cases declared

/-- A block declares the clients that come into it. -/
theorem IsClient.declaresInBlock {name : String} {d : Node} (client : IsClient text name d) :
    d.declaresInBlock text name := by
  cases client with
  | mk inline spelled =>
      simp [Node.declaresInBlock, Node.kind, Node.namedChildren, Node.children, Node.isNamed,
        Kind.isNamed, Node.child?, Node.role, Node.binds, Node.name, Node.text, Node.start,
        Node.stop, spelled]

/-! ## Where places come from -/

/-- A node that stands for another wherever they are. -/
def StandsFor (ch : Changes) (source text : Text) (n n' : Node) : Prop :=
  ∃ k, Unswapped ch source text k n n'

/-- The kind of the node above a place, if there is one. -/
def IsBelow (k : Kind) (above : List Node) : Prop := ∀ m ∈ above.head?, m.kind = k

/-- A place of the new tree that stands for one of the old tree. -/
structure Paired (ch : Changes) (source text : Text) (p p' : Place) : Prop where
  node : ∃ k, IsBelow k p.above ∧ Unswapped ch source text k p.node p'.node
  above : List.Forall₂ (StandsFor ch source text) p.above p'.above

/-- What a place of the new tree is, in terms of the places of the old one. -/
inductive Origin (ch : Changes) (source text : Text) (before : List Place) (p' : Place) : Prop
  | kept {p : Place} (inside : p ∈ before) (paired : Paired ch source text p p')
  | swapped {p : Place} {k : Kind} {new : Text} {n' : Node} {up : List Node} (inside : p ∈ before)
      (swap : ch.swap k p.node new) (stands : Stands text new n')
      (above : List.Forall₂ (StandsFor ch source text) p.above up)
      (lower : p' ∈ n'.places (fun _ => true) up)
  | declared {block d : Node} {name : String} {up : List Node} (declares : ch.declare block name)
      (client : IsClient text name d) (lower : p' ∈ d.places (fun _ => true) up)
  | imported {a : Node} (passed : a = p'.node ∨ a ∈ p'.above) (kind : a.kind = .importStatement)

theorem Origin.mono {before before' : List Place} {p' : Place}
    (more : ∀ p ∈ before, p ∈ before') :
    Origin ch source text before p' → Origin ch source text before' p'
  | .kept inside paired => .kept (more _ inside) paired
  | .swapped inside swap stands above lower => .swapped (more _ inside) swap stands above lower
  | .declared declares client lower => .declared declares client lower
  | .imported passed kind => .imported passed kind

/-- What is below an import has it above. -/
theorem imported_below {a : Node} {up : List Node} {p : Place}
    (lower : p ∈ a.places (fun _ => true) up) : a = p.node ∨ a ∈ p.above := by
  rcases Node.mem_places.mp lower with rfl | ⟨_, c, _, further⟩
  · exact Or.inl rfl
  · exact Or.inr ((Node.above_suffix further).subset (by simp))

theorem kept_origin (ch : Changes) (n : Node) : ∀ {k : Kind} {n' : Node} {above above' : List Node}
    {p' : Place}, Kept ch source text k n n' → IsBelow k above →
      List.Forall₂ (StandsFor ch source text) above above' →
      p' ∈ n'.places (fun _ => true) above' →
      Origin ch source text (n.places (fun _ => true) above) p' := by
  induction n using Node.byChildren with
  | step n below =>
      intro k n' above above' p' kept parent pairs inside
      have here : (⟨n, above⟩ : Place) ∈ n.places (fun _ => true) above :=
        Node.mem_places.mpr (Or.inl rfl)
      rcases kept_cases kept with ⟨_, new, swap, stands⟩ | same
      · exact .swapped here swap stands pairs inside
      · rcases Node.mem_places.mp inside with rfl | ⟨_, c', isChild', lower⟩
        · exact .kept here ⟨⟨k, parent, same⟩, pairs⟩
        · rcases same.children.back isChild' with new | ⟨c, isChild, kept'⟩
          · rcases new with ⟨_, isImport⟩ | ⟨_, block, name, declares, client⟩
            · exact .imported (imported_below lower) isImport
            · exact .declared declares client lower
          · have parent' : IsBelow n.kind (n :: above) := by simp [IsBelow]
            have further := below c isChild kept' parent' (.cons ⟨k, same⟩ pairs) lower
            refine further.mono fun p p_in => ?_
            exact Node.mem_places.mpr (Or.inr ⟨rfl, c, isChild, p_in⟩)

/-- Where the places of a re-read module come from. -/
theorem origin {tree tree' : Node} {p' : Place} (kept : Kept ch source text k tree tree')
    (inside : p' ∈ tree'.allPlaces) : Origin ch source text tree.allPlaces p' := by
  have top : IsBelow k [] := fun m above => by cases above
  exact kept_origin ch tree kept top .nil inside

end

/-! ## Faithful readers -/

namespace Rule

/-- Whether a rule takes imports out. -/
def movesImports : Rule → Bool
  | .defaultImport | .namedImport | .errorImport => true
  | .callSites | .authAccessor | .versionPrefix => false

end Rule

/-- The rule takes no import out from between statements that run together then. -/
def LeavesApart (s : Setting) (d : Draft) (rule : Rule) : Prop :=
  rule.movesImports → ∀ e ∈ rule.edits s d.tree d.text, ¬ IsRunOn d.text d.tree e

/-- The names in braces of an import. -/
def importedSpecifiers (statement : Node) : List Node :=
  (((importClause? statement).bind namedImports?).map specifiers).getD []

/-- What a clause has besides its names in braces, and whether it has those. -/
def clauseForm (clause : Node) : Bool × Bool × Bool :=
  (takesNamespace clause, (defaultImport? clause).isSome, (namedImports? clause).isSome)

/-- An import of the new tree that has the form of one of the old tree. -/
structure SameImport (source text : Text) (n n' : Node) : Prop where
  typeOnly : isTypeOnly n' = isTypeOnly n
  module : importSource? text n' = importSource? source n
  form : (importClause? n').map clauseForm = (importClause? n).map clauseForm

/-- A specifier of the new tree that says what one of the old tree says. -/
structure SameSpecifier (source text : Text) (spec spec' : Node) : Prop where
  typeOnly : isTypeOnly spec' = isTypeOnly spec
  names : specifierNames? text spec' = specifierNames? source spec

/-- The specifiers that an import may have after error helpers have been moved to it. -/
def MayImport (s : Setting) (source : Text) (tree statement spec : Node) : Prop :=
  spec ∈ importedSpecifiers statement ∨ ∃ m ∈ importStatements tree, ∃ specs,
    errorImport? s source m = some specs ∧ spec ∈ specs

/-- A reader that makes of the texts of a run the trees with the changes of the rules. -/
structure Faithful (read : Reader) : Prop where
  regular : ∀ {markup source tree}, read markup source = .ok tree → Regular tree
  code : ∀ {path source rule s d text tree}, Reached read {} path source rule s d →
    LeavesApart s d rule → rewritten s d rule = .ok text → read (hasMarkup path) text = .ok tree →
    Kept (.of s d.tree d.text rule) d.text text .program d.tree tree
  /-- The last two rules only take imports out, and append to one. -/
  imports : ∀ {path source rule s d text tree}, Reached read {} path source rule s d →
    rule = .versionPrefix ∨ rule = .errorImport → LeavesApart s d rule →
    rewritten s d rule = .ok text → read (hasMarkup path) text = .ok tree →
    ∀ n' ∈ importStatements tree, ∃ n ∈ importStatements d.tree,
      deletion d.text n ∉ rule.edits s d.tree d.text ∧ SameImport d.text text n n' ∧
        ∀ spec' ∈ importedSpecifiers n', ∃ spec, MayImport s d.text d.tree n spec ∧
          SameSpecifier d.text text spec spec'

end ClientMigration.Codemod
