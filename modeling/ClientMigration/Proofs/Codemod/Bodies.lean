/-
# Proofs.Codemod.Bodies -- the bodies of functions, and where clients are declared in them

A call belongs to the body of the nearest function if it stands in that body
(`InBody`); a call in the default of a parameter and one in an arrow's expression
belong to none. A body has a client from a statement of its own that ends in
front of the call (`Constructs`).

New clients are declared behind an anchor: the opening brace, or the last of the
directives at the head of the body (`headAnchor?`). What stands deeper in the
body begins behind the anchor (`BlockForm.anchor_before`), so the anchor also
tells bodies apart. A directive with a comment inside is taken for the first
statement (`anchor_before_commented`).
-/
import ClientMigration.Proofs.Codemod.Imports
import ClientMigration.Proofs.Codemod.Redirect
import ClientMigration.Proofs.Script.Scope

namespace ClientMigration.Codemod

set_option autoImplicit false

open Script

variable {s : Setting} {source : Text} {tree block : Node} {p : Place} {name : String}

/-! ## Bodies around calls -/

/-- A place stands in the body of the nearest function around it, and the body is a block. -/
def InBody (p : Place) (block : Node) : Prop :=
  ∃ through f up, p.above = through ++ block :: f :: up ∧ (∀ a ∈ through, ¬ a.kind.isFunction) ∧
    f.kind.isFunction ∧ f.child? .body = some block ∧ block.kind = .statementBlock

theorem bodyAround?_within (inTree : p ∈ tree.allPlaces) (around : bodyAround? p = some block) :
    Node.Within tree block ∧ block.kind = .statementBlock := by
  obtain ⟨found, holds⟩ := Option.filter_eq_some_iff.mp around
  obtain ⟨function, nearest, body⟩ := Option.bind_eq_some_iff.mp found
  have function_within := Node.within_above inTree (List.mem_of_find?_eq_some nearest)
  simp only [Bool.and_eq_true, beq_iff_eq] at holds
  exact ⟨function_within.child (Node.child?_mem body), holds.1.1⟩

/-- A word that begins in the bytes of the body of the nearest function stands below the body. -/
theorem inBody_of_around (wf : tree.WellFormed) (inTree : p ∈ tree.allPlaces)
    (isWord : p.node.kind.isWord) (around : bodyAround? p = some block) : InBody p block := by
  obtain ⟨found, holds⟩ := Option.filter_eq_some_iff.mp around
  obtain ⟨f, nearest, body⟩ := Option.bind_eq_some_iff.mp found
  obtain ⟨isFunction, through, up, chain, between⟩ := List.find?_eq_some_iff_append.mp nearest
  simp only [Bool.and_eq_true, beq_iff_eq, decide_eq_true_eq] at holds
  obtain ⟨⟨kind, after⟩, before⟩ := holds
  obtain ⟨node, above⟩ := p
  cases chain
  obtain ⟨f_in, c, isChild, lower⟩ := Node.part_above inTree
  have f_wf : f.WellFormed := (wf.place f_in).2.1
  have c_place := (f_wf.child isChild).2.1.place lower
  have long := ((wf.place inTree).2.1.word isWord).1
  have isBody : c = block := by
    rcases f_wf.inside.apart isChild (Node.child?_mem body) with same | left | right
    · exact same
    · simp only at after before c_place long
      omega
    · simp only at after before c_place long
      omega
  subst isBody
  -- the place is a word and so not the body itself
  rcases Node.mem_places.mp lower with top | ⟨_, d, _, further⟩
  · have same : node = c := congrArg Place.node top
    rw [same, kind] at isWord
    cases isWord
  · obtain ⟨through', chain⟩ := Node.above_suffix further
    have whole : through ++ f :: up = (through' ++ [c]) ++ f :: up := by simpa using chain.symm
    have shorter : through = through' ++ [c] := List.append_cancel_right whole
    refine ⟨through', f, up, chain.symm, fun a passed => ?_, isFunction, body, kind⟩
    simpa using between a (by simp [shorter, passed])

theorem bodyAround?_iff (wf : tree.WellFormed) (inTree : p ∈ tree.allPlaces)
    (isWord : p.node.kind.isWord) : bodyAround? p = some block ↔ InBody p block := by
  refine ⟨inBody_of_around wf inTree isWord, ?_⟩
  rintro ⟨through, f, up, chain, between, isFunction, body, kind⟩
  have below : p.Under ⟨block, f :: up⟩ := ⟨through, chain⟩
  have bytes := wf.under_bytes inTree below
  have long := ((wf.place inTree).2.1.word isWord).1
  have noFunction : ¬ block.kind.isFunction := by
    rw [kind]
    exact Bool.false_ne_true
  have nearest : p.function? = some f := by
    refine List.find?_eq_some_iff_append.mpr ⟨isFunction, through ++ [block], up, by simp [chain], ?_⟩
    intro a passed
    rcases List.mem_append.mp passed with inner | last
    · simpa using between a inner
    · simpa [List.mem_singleton.mp last] using noFunction
  simp only at bytes
  rw [bodyAround?, nearest, Option.bind_some, body, Option.filter_some, if_pos]
  simp only [kind, beq_self_eq_true, Bool.true_and, Bool.and_eq_true, decide_eq_true_eq]
  omega

/-! ## Clients that a body has already -/

/-- A variable is given what the factory makes. -/
def IsConstruction (s : Setting) (source : Text) (d : Node) (name : String) : Prop :=
  d.kind = .variableDeclarator ∧
    (∃ word, d.child? .name = some word ∧ word.kind = .identifier ∧ word.name source = name) ∧
    ∃ call callee, d.child? .value = some call ∧ call.kind = .callExpression ∧
      call.child? .function = some callee ∧ callee.name source = s.factoryName

/-- A statement of the block that ends in front of an offset makes a client under a name. -/
def Constructs (s : Setting) (source : Text) (block : Node) (offset : Nat) (name : String) : Prop :=
  ∃ statement ∈ block.children, (statement.kind = .lexicalDeclaration ∨
      statement.kind = .variableDeclaration) ∧ statement.stop ≤ offset ∧
    ∃ d ∈ statement.children, IsConstruction s source d name

theorem constructedName?_iff {d : Node} :
    constructedName? s source d = some name ↔ IsConstruction s source d name := by
  constructor
  · intro made
    unfold constructedName? at made
    split at made
    · rename_i word call named given
      split at made
      · rename_i callee called
        split at made
        · rename_i form
          simp only [Bool.and_eq_true, beq_iff_eq] at form
          obtain ⟨⟨⟨kind, plain⟩, callKind⟩, factory⟩ := form
          cases made
          exact ⟨kind, ⟨word, named, plain, rfl⟩, call, callee, given, callKind, called, factory⟩
        · cases made
      · cases made
    · cases made
  · rintro ⟨kind, ⟨word, named, plain, rfl⟩, call, callee, given, callKind, called, factory⟩
    simp [constructedName?, named, given, called, kind, plain, callKind, factory]

theorem IsConstruction.isNamed {d : Node} (made : IsConstruction s source d name) : d.isNamed := by
  rw [Node.isNamed, made.1]
  rfl

theorem existingClient?_constructs {offset : Nat}
    (found : existingClient? s source block offset = some name) :
    Constructs s source block offset name := by
  obtain ⟨statement, listed, found⟩ := List.exists_of_findSome?_eq_some found
  obtain ⟨d, isChild, made⟩ := List.exists_of_findSome?_eq_some found
  obtain ⟨isStatement, holds⟩ := List.mem_filter.mp listed
  simp only [Bool.and_eq_true, Bool.or_eq_true, beq_iff_eq, decide_eq_true_eq] at holds
  exact ⟨statement, namedChild_mem isStatement, holds.1, holds.2, d, namedChild_mem isChild,
    constructedName?_iff.mp made⟩

/-- No client is found for an offset exactly if the block makes none in front of it. -/
theorem existingClient?_none_iff {offset : Nat} :
    existingClient? s source block offset = none ↔ ¬ ∃ name, Constructs s source block offset name := by
  constructor
  · rintro none ⟨name, statement, isChild, kind, ends, d, isPart, made⟩
    have named : statement.isNamed := by
      rcases kind with kind | kind <;> (rw [Node.isNamed, kind]; rfl)
    have listed : statement ∈ block.namedChildren.filter fun n =>
        (n.kind == .lexicalDeclaration || n.kind == .variableDeclaration) && n.stop ≤ offset :=
      List.mem_filter.mpr ⟨List.mem_filter.mpr ⟨isChild, named⟩, by simpa using ⟨kind, ends⟩⟩
    have nothing := List.findSome?_eq_none_iff.mp (List.findSome?_eq_none_iff.mp none statement listed) d
      (List.mem_filter.mpr ⟨isPart, made.isNamed⟩)
    rw [constructedName?_iff.mpr made] at nothing
    cases nothing
  · intro none
    cases found : existingClient? s source block offset with
    | none => rfl
    | some name => exact absurd ⟨name, existingClient?_constructs found⟩ none

theorem IsConstruction.introduces {statement d : Node} (isChild : d ∈ statement.children)
    (kind : statement.kind = .lexicalDeclaration ∨ statement.kind = .variableDeclaration)
    (made : IsConstruction s source d name) : Introduces source name statement := by
  obtain ⟨isDeclarator, ⟨word, named, plain, spelled⟩, _⟩ := made
  exact .variable kind isChild isDeclarator named (.word (Or.inl plain) spelled)

/-- A block declares the clients that it makes. -/
theorem Constructs.declares {offset : Nat} (made : Constructs s source block offset name)
    (kind : block.kind = .statementBlock) : Declares source name block := by
  obtain ⟨statement, isChild, isDeclaration, _, d, isPart, construction⟩ := made
  exact .statement kind isChild (construction.introduces isPart isDeclaration)

/-! ## The head of a body -/

/-- Named nodes without the comments among them. -/
def withoutComments (ns : List Node) : List Node := ns.filter (·.kind != .comment)

theorem withoutComments_comment {n : Node} (comment : n.kind = .comment) (ns : List Node) :
    withoutComments (n :: ns) = withoutComments ns :=
  List.filter_cons_of_neg (by simp [comment])

theorem withoutComments_other {n : Node} (other : n.kind ≠ .comment) (ns : List Node) :
    withoutComments (n :: ns) = n :: withoutComments ns :=
  List.filter_cons_of_pos (by simpa using other)

/-- The directives that are found at the head of a block lead it, and the last one is the anchor. -/
theorem prologue_cases : ∀ (last : Option Node) (rest ns : List Node),
    (prologue last rest ns = (last, rest) ∧ (withoutComments ns).takeWhile isDirective = []) ∨
      ∃ front n back, ns = front ++ n :: back ∧ isDirective n ∧ prologue last rest ns = (some n, back) ∧
        (withoutComments ns).takeWhile isDirective = withoutComments front ++ [n]
  | last, rest, [] => Or.inl ⟨rfl, rfl⟩
  | last, rest, n :: ns => by
      unfold prologue
      by_cases comment : n.kind = .comment
      · rw [if_pos (beq_iff_eq.mpr comment), withoutComments_comment comment]
        rcases prologue_cases last rest ns with same | ⟨front, m, back, rfl, directive, found, leads⟩
        · exact Or.inl same
        · refine Or.inr ⟨n :: front, m, back, rfl, directive, found, ?_⟩
          rw [withoutComments_comment comment, leads]
      · rw [if_neg (by simpa using comment), withoutComments_other comment]
        by_cases directive : isDirective n = true
        · rw [if_pos directive, List.takeWhile_cons_of_pos directive]
          rcases prologue_cases (some n) ns ns with
            ⟨same, none⟩ | ⟨front, m, back, split, directive', found, leads⟩
          · exact Or.inr ⟨[], n, ns, rfl, directive, same, congrArg (n :: ·) none⟩
          · refine Or.inr ⟨n :: front, m, back, by rw [split]; rfl, directive', found, ?_⟩
            rw [withoutComments_other comment, leads]
            rfl
        · rw [if_neg directive]
          exact Or.inl ⟨rfl, List.takeWhile_cons_of_neg directive⟩

/-- What a client is declared behind: the last of the directives, or the opening brace. -/
def headAnchor? (block : Node) : Option Node :=
  match block.children with
  | [] => none
  | brace :: inside =>
    if brace.kind == .token "\x7b" then
      some ((prologue none (inside.filter Node.isNamed) (inside.filter Node.isNamed)).1.getD brace)
    else none

theorem declarationEdit?_eq (s : Setting) (source : Text) (block : Node) (name : String) :
    ∃ text, declarationEdit? s source block name =
      (headAnchor? block).map fun anchor => .insert anchor.stop text := by
  unfold declarationEdit? headAnchor?
  cases block.children with
  | nil => exact ⟨[], rfl⟩
  | cons brace inside =>
      by_cases opens : brace.kind = .token "\x7b"
      · simp only [opens, bne_self_eq_false, Bool.false_eq_true, if_false, beq_self_eq_true, if_true,
          Option.map_some]
        exact ⟨_, rfl⟩
      · simp only [bne_iff_ne.mpr opens, if_true, beq_eq_false_iff_ne.mpr opens, Bool.false_eq_true,
          if_false, Option.map_none]
        exact ⟨[], trivial⟩

theorem declarationEdit?_start {e : Edit} (made : declarationEdit? s source block name = some e) :
    ∃ anchor, headAnchor? block = some anchor ∧ e.start = anchor.stop ∧ e.stop = anchor.stop := by
  obtain ⟨text, same⟩ := declarationEdit?_eq s source block name
  rw [same] at made
  obtain ⟨anchor, found, rfl⟩ := Option.map_eq_some_iff.mp made
  exact ⟨anchor, found, rfl, rfl⟩

/-- The anchor is the brace and no directive leads the block, or it is the last of the directives that
do. -/
theorem headAnchor?_cases {anchor : Node} (found : headAnchor? block = some anchor) :
    ∃ brace inside, block.children = brace :: inside ∧ brace.kind = .token "\x7b" ∧
      block.namedChildren = inside.filter Node.isNamed ∧
      ((anchor = brace ∧ (withoutComments block.namedChildren).takeWhile isDirective = []) ∨
        ∃ front back, block.namedChildren = front ++ anchor :: back ∧ isDirective anchor ∧
          (withoutComments block.namedChildren).takeWhile isDirective =
            withoutComments front ++ [anchor]) := by
  unfold headAnchor? at found
  split at found
  · cases found
  · rename_i brace inside children
    split at found
    · rename_i opens
      have opens : brace.kind = .token "\x7b" := eq_of_beq opens
      have named : block.namedChildren = inside.filter Node.isNamed := by
        rw [Node.namedChildren, children, List.filter_cons_of_neg]
        simp [Node.isNamed, opens, Kind.isNamed]
      refine ⟨brace, inside, children, opens, named, ?_⟩
      rw [named]
      rcases prologue_cases none (inside.filter Node.isNamed) (inside.filter Node.isNamed) with
        ⟨same, none⟩ | ⟨front, n, back, split, directive, same, leads⟩
      · rw [same] at found
        cases found
        exact Or.inl ⟨rfl, none⟩
      · rw [same] at found
        cases found
        exact Or.inr ⟨front, back, split, directive, leads⟩
    · cases found

/-! ## Trees with blocks in braces -/

/-- A tree in which blocks begin with their brace and nothing stands below marks, comments and
strings. -/
structure BlockForm (tree : Node) : Prop where
  wellFormed : tree.WellFormed
  braced : ∀ p ∈ tree.allPlaces, p.node.kind = .statementBlock →
    ∃ brace ∈ p.node.children.head?, brace.kind = .token "\x7b" ∧ brace.start < brace.stop
  leaf : ∀ p ∈ tree.allPlaces,
    p.node.isNamed = false ∨ p.node.kind = .comment ∨ p.node.kind = .string → p.node.children = []

theorem blockForm_iff : BlockForm tree ↔ tree.WellFormed ∧
    (∀ p ∈ tree.allPlaces, p.node.kind = .statementBlock →
      ∃ brace ∈ p.node.children.head?, brace.kind = .token "\x7b" ∧ brace.start < brace.stop) ∧
    ∀ p ∈ tree.allPlaces,
      p.node.isNamed = false ∨ p.node.kind = .comment ∨ p.node.kind = .string → p.node.children = [] :=
  ⟨fun form => ⟨form.wellFormed, form.braced, form.leaf⟩,
    fun ⟨wellFormed, braced, leaf⟩ => ⟨wellFormed, braced, leaf⟩⟩

instance (tree : Node) : Decidable (BlockForm tree) := decidable_of_iff _ blockForm_iff.symm

/-- A place that is no mark, no comment, no string and no statement around one. -/
def IsDeep (p : Place) : Prop := p.node.kind = .identifier ∨ p.node.kind = .statementBlock

theorem isDirective_cases {n : Node} (directive : isDirective n) :
    n.kind = .expressionStatement ∧ ∃ e, n.namedChildren = [e] ∧ e.kind = .string := by
  rw [isDirective, Bool.and_eq_true, beq_iff_eq] at directive
  obtain ⟨kind, only⟩ := directive
  split at only
  · rename_i e single
    exact ⟨kind, e, single, eq_of_beq only⟩
  · cases only

theorem BlockForm.not_deep_in_leaf (form : BlockForm tree) {c : Node} {above : List Node} {q : Place}
    (inTree : ⟨c, above⟩ ∈ tree.allPlaces)
    (leaf : c.isNamed = false ∨ c.kind = .comment ∨ c.kind = .string)
    (lower : q ∈ c.places (fun _ => true) above) : ¬ IsDeep q := by
  rcases Node.mem_places.mp lower with rfl | ⟨_, d, isChild, _⟩
  · rintro (kind | kind) <;> rcases leaf with unnamed | comment | string
    · simp only [Node.isNamed] at unnamed kind
      rw [kind] at unnamed
      cases unnamed
    · cases comment.symm.trans kind
    · cases string.symm.trans kind
    · simp only [Node.isNamed] at unnamed kind
      rw [kind] at unnamed
      cases unnamed
    · cases comment.symm.trans kind
    · cases string.symm.trans kind
  · have none : c.children = [] := form.leaf _ inTree leaf
    rw [none] at isChild
    cases isChild

theorem BlockForm.not_deep_in_directive (form : BlockForm tree) {c : Node} {above : List Node}
    {q : Place} (inTree : ⟨c, above⟩ ∈ tree.allPlaces) (directive : isDirective c)
    (lower : q ∈ c.places (fun _ => true) above) : ¬ IsDeep q := by
  obtain ⟨kind, e, only, string⟩ := isDirective_cases directive
  rcases Node.mem_places.mp lower with rfl | ⟨_, d, isChild, lower⟩
  · rintro (other | other)
    · cases kind.symm.trans other
    · cases kind.symm.trans other
  · refine form.not_deep_in_leaf (Node.child_mem_places inTree rfl isChild) ?_ lower
    cases named : d.isNamed with
    | false => exact Or.inl rfl
    | true =>
        have listed : d ∈ c.namedChildren := List.mem_filter.mpr ⟨isChild, named⟩
        rw [only, List.mem_singleton] at listed
        exact Or.inr (Or.inr (listed ▸ string))

/-- What stands deep in a block begins behind the anchor. -/
theorem BlockForm.anchor_before (form : BlockForm tree) {up : List Node} {anchor : Node} {q : Place}
    (inTree : q ∈ tree.allPlaces) (under : q.Under ⟨block, up⟩) (deep : IsDeep q)
    (found : headAnchor? block = some anchor) : anchor.stop ≤ q.node.start := by
  obtain ⟨through, chain⟩ := under
  obtain ⟨node, above⟩ := q
  simp only at chain ⊢
  subst chain
  obtain ⟨block_in, c, isChild, lower⟩ := Node.part_above inTree
  have wf : block.WellFormed := (form.wellFormed.place block_in).2.1
  have c_in := Node.child_mem_places block_in rfl isChild
  have begins : c.start ≤ node.start := ((wf.child isChild).2.1.place lower).1
  have ordered := wf.inside.pairwise
  obtain ⟨brace, inside, children, opens, named, head⟩ := headAnchor?_cases found
  rw [children, List.pairwise_cons] at ordered
  -- neither the brace nor another mark is above the place
  have unmarked : c.isNamed = true := by
    cases named : c.isNamed with
    | false => exact absurd deep (form.not_deep_in_leaf c_in (Or.inl named) lower)
    | true => rfl
  have c_inside : c ∈ inside := by
    rw [children] at isChild
    rcases List.mem_cons.mp isChild with rfl | later
    · rw [Node.isNamed, opens] at unmarked
      cases unmarked
    · exact later
  rcases head with ⟨rfl, _⟩ | ⟨front, back, split, directive, leads⟩
  · have behind := ordered.1 c c_inside
    exact Nat.le_trans behind begins
  · have listed : c ∈ block.namedChildren := List.mem_filter.mpr ⟨isChild, unmarked⟩
    have later : c ∈ back := by
      rw [split] at listed
      rcases List.mem_append.mp listed with early | late
      · by_cases comment : c.kind = .comment
        · exact absurd deep (form.not_deep_in_leaf c_in (Or.inr (Or.inl comment)) lower)
        · have leading : c ∈ (withoutComments block.namedChildren).takeWhile isDirective := by
            rw [leads]
            exact List.mem_append_left _ (List.mem_filter.mpr ⟨early, by simpa using comment⟩)
          have directive' := List.all_eq_true.mp List.all_takeWhile c leading
          exact absurd deep (form.not_deep_in_directive c_in directive' lower)
      · rcases List.mem_cons.mp late with rfl | later
        · exact absurd deep (form.not_deep_in_directive c_in directive lower)
        · exact later
    have apart := (ordered.2.filter Node.isNamed)
    rw [← named, split, List.pairwise_append, List.pairwise_cons] at apart
    have behind := apart.2.1.1 c later
    exact Nat.le_trans behind begins

/-- The anchor of a block in the tree lies in the block, behind its first byte. -/
theorem BlockForm.anchor_inside (form : BlockForm tree) {up : List Node}
    (inTree : ⟨block, up⟩ ∈ tree.allPlaces) (kind : block.kind = .statementBlock) :
    ∃ anchor, headAnchor? block = some anchor ∧ block.start < anchor.stop ∧ anchor.stop ≤ block.stop ∧
      ∃ brace ∈ block.children.head?, brace.kind = .token "\x7b" ∧ brace.stop ≤ anchor.stop := by
  have wf : block.WellFormed := (form.wellFormed.place inTree).2.1
  obtain ⟨brace, first, opens, long⟩ := form.braced _ inTree kind
  obtain ⟨inside, children⟩ : ∃ inside, block.children = brace :: inside := by
    cases all : block.children with
    | nil => simp [all] at first
    | cons b inside =>
        rw [all, List.head?_cons, Option.mem_some_iff] at first
        exact ⟨inside, by rw [first]⟩
  have brace_lies := wf.child (children ▸ List.mem_cons_self)
  cases found : headAnchor? block with
  | none => simp [headAnchor?, children, opens] at found
  | some anchor =>
      obtain ⟨brace', inside', children', _, named, head⟩ := headAnchor?_cases found
      rw [children] at children'
      cases children'
      have ordered := wf.inside.pairwise
      rw [children, List.pairwise_cons] at ordered
      refine ⟨anchor, rfl, ?_⟩
      rcases head with ⟨rfl, _⟩ | ⟨front, back, split, _, _⟩
      · exact ⟨by omega, brace_lies.2.2, anchor, first, opens, Nat.le_refl _⟩
      · have listed : anchor ∈ inside.filter Node.isNamed := by simp [← named, split]
        have anchor_in := (List.mem_filter.mp listed).1
        have behind := ordered.1 anchor anchor_in
        have lies := wf.child (children ▸ List.mem_cons_of_mem _ anchor_in)
        have long' := lies.2.1.le
        exact ⟨by omega, lies.2.2, brace, first, opens, by omega⟩

/-- No block lies behind the head of another one of its bytes, so blocks are known by their bytes. -/
theorem BlockForm.block_unique (form : BlockForm tree) {b b' : Node} {up up' : List Node}
    (b_in : ⟨b, up⟩ ∈ tree.allPlaces) (b'_in : ⟨b', up'⟩ ∈ tree.allPlaces)
    (kind : b.kind = .statementBlock) (kind' : b'.kind = .statementBlock)
    (start : b.start = b'.start) (stop : b.stop = b'.stop) : b = b' := by
  obtain ⟨anchor, found, after, before, _⟩ := form.anchor_inside b_in kind
  obtain ⟨anchor', found', after', before', _⟩ := form.anchor_inside b'_in kind'
  rcases form.wellFormed.places_under b_in b'_in with same | left | right | below | below
  · exact congrArg Place.node same
  · simp only at left
    omega
  · simp only at right
    omega
  · have behind := form.anchor_before b'_in below (Or.inr kind') found
    simp only at behind
    omega
  · have behind := form.anchor_before b_in below (Or.inr kind) found'
    simp only at behind
    omega

/-- Two blocks have their anchors at different places. -/
theorem BlockForm.anchors_apart (form : BlockForm tree) {b b' : Node} {up up' : List Node}
    (b_in : ⟨b, up⟩ ∈ tree.allPlaces) (b'_in : ⟨b', up'⟩ ∈ tree.allPlaces)
    (kind : b.kind = .statementBlock) (kind' : b'.kind = .statementBlock) (other : b ≠ b')
    {anchor anchor' : Node} (found : headAnchor? b = some anchor)
    (found' : headAnchor? b' = some anchor') : anchor.stop ≠ anchor'.stop := by
  obtain ⟨_, same, after, before, _⟩ := form.anchor_inside b_in kind
  obtain ⟨_, same', after', before', _⟩ := form.anchor_inside b'_in kind'
  cases found.symm.trans same
  cases found'.symm.trans same'
  rcases form.wellFormed.places_under b_in b'_in with same | left | right | below | below
  · exact absurd (congrArg Place.node same) other
  · simp only at left
    omega
  · simp only at right
    omega
  · have behind := form.anchor_before b'_in below (Or.inr kind') found
    simp only at behind
    omega
  · have behind := form.anchor_before b_in below (Or.inr kind) found'
    simp only at behind
    omega

/-! ## Directives -/

/-- A statement that is a string and perhaps comments. -/
def isStringStatement (n : Node) : Bool :=
  n.kind == .expressionStatement &&
    match withoutComments n.namedChildren with
    | [e] => e.kind == .string
    | _ => false

/-- The strings that lead a block. -/
def leadingDirectives (block : Node) : List Node :=
  (withoutComments block.namedChildren).takeWhile isStringStatement

def HoldsComment (n : Node) : Prop := ∃ c ∈ n.children, c.kind = .comment

/-- A directive is a statement of a string with no comment in it. -/
theorem isDirective_iff {n : Node} : isDirective n ↔ isStringStatement n ∧ ¬ HoldsComment n := by
  constructor
  · intro directive
    obtain ⟨kind, e, only, string⟩ := isDirective_cases directive
    refine ⟨by simp [isStringStatement, withoutComments, only, string, kind], ?_⟩
    rintro ⟨c, isChild, comment⟩
    have listed : c ∈ n.namedChildren :=
      List.mem_filter.mpr ⟨isChild, by rw [Node.isNamed, comment]; rfl⟩
    rw [only, List.mem_singleton] at listed
    rw [listed, string] at comment
    cases comment
  · rintro ⟨statement, plain⟩
    have all : withoutComments n.namedChildren = n.namedChildren := by
      refine List.filter_eq_self.mpr fun c listed => ?_
      have noComment : c.kind ≠ .comment := fun comment => plain ⟨c, (List.mem_filter.mp listed).1, comment⟩
      simpa using noComment
    rw [isStringStatement, all] at statement
    exact statement

theorem mem_takeWhile_of {α : Type} {f g : α → Bool} : ∀ {xs : List α},
    (∀ x ∈ xs.takeWhile f, g x) → ∀ x ∈ xs.takeWhile f, x ∈ xs.takeWhile g
  | [], _, x, inside => inside
  | y :: ys, both, x, inside => by
      by_cases keeps : f y = true
      · rw [List.takeWhile_cons_of_pos keeps] at both inside
        rw [List.takeWhile_cons_of_pos (both y List.mem_cons_self)]
        rcases List.mem_cons.mp inside with rfl | later
        · exact List.mem_cons_self
        · exact List.mem_cons_of_mem _
            (mem_takeWhile_of (fun z among => both z (List.mem_cons_of_mem _ among)) x later)
      · rw [List.takeWhile_cons_of_neg keeps] at inside
        cases inside

/-- The anchor comes behind the leading strings if there is no comment in one of them. -/
theorem anchor_after_directives (wf : block.WellFormed) {anchor : Node}
    (found : headAnchor? block = some anchor)
    (plain : ∀ d ∈ leadingDirectives block, ¬ HoldsComment d) :
    ∀ d ∈ leadingDirectives block, d.stop ≤ anchor.stop := by
  intro d leading
  have directives : d ∈ (withoutComments block.namedChildren).takeWhile isDirective := by
    refine mem_takeWhile_of (fun x among => ?_) d leading
    exact isDirective_iff.mpr ⟨List.all_eq_true.mp List.all_takeWhile x among, plain x among⟩
  obtain ⟨_, _, _, _, _, ⟨_, none⟩ | ⟨front, back, split, _, leads⟩⟩ := headAnchor?_cases found
  · rw [none] at directives
    cases directives
  · rw [leads] at directives
    rcases List.mem_append.mp directives with early | last
    · have ordered := wf.inside.pairwise.filter Node.isNamed
      rw [show block.children.filter Node.isNamed = front ++ anchor :: back from split,
        List.pairwise_append] at ordered
      have before := ordered.2.2 d (List.mem_filter.mp early).1 anchor List.mem_cons_self
      have isChild : anchor ∈ block.children :=
        namedChild_mem (split ▸ List.mem_append_right _ List.mem_cons_self)
      exact Nat.le_trans before (wf.child isChild).2.1.le
    · exact Nat.le_of_eq (congrArg Node.stop (List.mem_singleton.mp last))

/-- The anchor comes in front of a leading string with a comment in it. -/
theorem anchor_before_commented (wf : block.WellFormed) {anchor d : Node}
    (found : headAnchor? block = some anchor) (leading : d ∈ leadingDirectives block)
    (commented : HoldsComment d) : anchor.stop ≤ d.start := by
  have other : ¬ isDirective d := fun directive => (isDirective_iff.mp directive).2 commented
  have kept : d ∈ withoutComments block.namedChildren := (List.takeWhile_sublist _).mem leading
  obtain ⟨listed, noComment⟩ := List.mem_filter.mp kept
  obtain ⟨brace, inside, children, _, named, head⟩ := headAnchor?_cases found
  have ordered := wf.inside.pairwise
  rw [children, List.pairwise_cons] at ordered
  rcases head with ⟨rfl, _⟩ | ⟨front, back, split, directive, leads⟩
  · rw [named] at listed
    exact ordered.1 d (List.mem_filter.mp listed).1
  · have later : d ∈ back := by
      rw [split] at listed
      rcases List.mem_append.mp listed with early | late
      · have leads_d : d ∈ (withoutComments block.namedChildren).takeWhile isDirective := by
          rw [leads]
          exact List.mem_append_left _ (List.mem_filter.mpr ⟨early, noComment⟩)
        exact absurd (List.all_eq_true.mp List.all_takeWhile d leads_d) other
      · rcases List.mem_cons.mp late with rfl | later
        · exact absurd directive other
        · exact later
    have apart := ordered.2.filter Node.isNamed
    rw [← named, split, List.pairwise_append, List.pairwise_cons] at apart
    exact apart.2.1.1 d later

end ClientMigration.Codemod
