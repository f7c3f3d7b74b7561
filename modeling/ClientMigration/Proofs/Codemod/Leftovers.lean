/-
# Proofs.Codemod.Leftovers -- references that are still of a form to be replaced

What a rule puts in is no reference of a form that a rule replaces, or it is a
name that the body around it declares (`swapped_shadowed`). So a replaceable
reference in the text that a rule makes stands for one in the text before, and
for one that the rule has not replaced (`Reached.replaceable_before`). By
induction over a run, a name that the module had imported from the start has no
replaceable reference left in the end (`run_uses_up`).
-/
import ClientMigration.Proofs.Codemod.Rereading
import ClientMigration.Proofs.Codemod.References
import ClientMigration.Proofs.Codemod.FittingEdits

namespace ClientMigration.Codemod

set_option autoImplicit false

open Script

variable {config : Config} {source text : Text} {tree tree' : Node} {p p' : Place}

/-- A reference of a form that a rule replaces if the name is a binding of the kind. -/
structure IsReplaceable (config : Config) (source : Text) (tree : Node) (kind : BindingKind)
    (name : String) (p : Place) : Prop where
  use : IsUse source tree name p
  form : kind.replaces config source p

/-! ## Forms of references -/

theorem replaces_plain {kind : BindingKind} (form : kind.replaces config source p) :
    p.node.kind = .identifier := by
  simp only [BindingKind.replaces, Bool.and_eq_true, beq_iff_eq] at form
  exact form.1

/-- The head of a verb's call, with the nodes around it. -/
theorem clientForm_cases (form : BindingKind.client.replaces config source p) :
    ∃ member call up verb, p.above = member :: call :: up ∧ member.kind = .memberExpression ∧
      p.node.plays .object ∧ member.child? .property = some verb ∧
      config.httpMethods.contains (verb.name source) ∧ call.kind = .callExpression ∧
      member.plays .function := by
  rw [BindingKind.replaces, Bool.and_eq_true] at form
  exact verbCall_cases form.2

theorem clientForm_of (plain : p.node.kind = .identifier) {member call verb : Node} {up : List Node}
    (above : p.above = member :: call :: up) (kind : member.kind = .memberExpression)
    (object : p.node.plays .object) (found : member.child? .property = some verb)
    (method : config.httpMethods.contains (verb.name source)) (callKind : call.kind = .callExpression)
    (function : member.plays .function) : BindingKind.client.replaces config source p := by
  simp only [BindingKind.replaces, isVerbCall, above, plain, kind, object, found, method, callKind,
    function, Option.any_some, beq_self_eq_true, Bool.and_self]

theorem accessorForm_cases (form : BindingKind.accessor.replaces config source p) :
    ∃ call up args, p.above = call :: up ∧ call.kind = .callExpression ∧ p.node.plays .function ∧
      call.child? .arguments = some args ∧ args.kind = .arguments ∧ args.namedChildren = [] := by
  rw [BindingKind.replaces, Bool.and_eq_true] at form
  exact bareCall_cases form.2

theorem accessorForm_of (plain : p.node.kind = .identifier) {call args : Node} {up : List Node}
    (above : p.above = call :: up) (kind : call.kind = .callExpression)
    (function : p.node.plays .function) (found : call.child? .arguments = some args)
    (isArguments : args.kind = .arguments) (empty : args.namedChildren = []) :
    BindingKind.accessor.replaces config source p := by
  simp only [BindingKind.replaces, isBareCall, above, plain, kind, function, found, isArguments, empty,
    Option.any_some, beq_self_eq_true, Bool.and_self, List.isEmpty_nil]

/-! ## What rules put in -/

/-- A call on a string holds no reference that a rule replaces. -/
theorem IsInlineCall.quiet {n : Node} (inline : IsInlineCall n) {up : List Node}
    (lower : p ∈ n.places (fun _ => true) up) (kind : BindingKind) :
    ¬ kind.replaces config text p := by
  intro form
  have plain := replaces_plain form
  cases inline
  simp only [Node.places, Node.placesIn, if_true, List.append_nil, List.mem_cons, List.nil_append,
    List.cons_append, List.not_mem_nil, or_false] at lower
  rcases lower with rfl | rfl | rfl | rfl | rfl | rfl <;> try cases plain
  cases kind with
  | client =>
      obtain ⟨_, _, _, _, _, _, object, _⟩ := clientForm_cases form
      cases object
  | accessor =>
      obtain ⟨_, _, _, above, _, _, found, _, empty⟩ := accessorForm_cases form
      cases above
      cases found
      cases empty

/-- Nor does the declaration of a client. -/
theorem IsClient.quiet {name : String} {d : Node} (client : IsClient text name d) {up : List Node}
    (lower : p ∈ d.places (fun _ => true) up) (kind : BindingKind) :
    ¬ kind.replaces config text p := by
  intro form
  have plain := replaces_plain form
  cases client with
  | mk inline spelled =>
      simp only [Node.places, Node.placesIn, if_true, List.append_nil, List.mem_cons, List.mem_append,
        List.nil_append, List.cons_append, List.not_mem_nil, or_false] at lower
      rcases lower with rfl | rfl | rfl | rfl | rfl | inside | rfl <;> try cases plain
      · cases kind with
        | client =>
            obtain ⟨_, _, _, _, _, _, object, _⟩ := clientForm_cases form
            cases object
        | accessor =>
            obtain ⟨_, _, _, _, _, function, _⟩ := accessorForm_cases form
            cases function
      · exact inline.quiet inside kind form

/-! ## References of the new tree in the old one -/

variable {ch : Changes}

theorem Paired.inner_kind (paired : Paired ch source text p p') : p'.node.kind = p.node.kind := by
  obtain ⟨_, _, same⟩ := paired.node
  exact same.kind

theorem Paired.plays {r : Role} (paired : Paired ch source text p p') (plays : p'.node.plays r) :
    p.node.plays r := by
  obtain ⟨_, _, same⟩ := paired.node
  rw [Node.plays, ← same.role]
  exact plays

theorem StandsFor.plays {n n' : Node} {r : Role} (stands : StandsFor ch source text n n')
    (plays : n'.plays r) : n.plays r := by
  obtain ⟨_, same⟩ := stands
  rw [Node.plays, ← same.role]
  exact plays

theorem StandsFor.kind {n n' : Node} (stands : StandsFor ch source text n n') : n'.kind = n.kind := by
  obtain ⟨_, same⟩ := stands
  exact same.kind

/-- A swapped node is named as what came in its stead is. -/
theorem kept_named {k : Kind} {n n' : Node} (kept : Kept ch source text k n n') (named : n.isNamed) :
    n'.isNamed := by
  rcases kept_cases kept with ⟨_, _, _, stands⟩ | same
  · cases stands with
    | name => rfl
    | call inline =>
        cases inline
        rfl
  · rw [Node.isNamed, same.kind]
    exact named

/-- A reference of the form that a rule replaces had that form before. -/
theorem Paired.replaces (paired : Paired ch source text p p') (regular : Regular tree)
    (inTree : p ∈ tree.allPlaces) {kind : BindingKind} (form : kind.replaces config text p') :
    kind.replaces config source p := by
  have plain : p.node.kind = .identifier := paired.inner_kind ▸ replaces_plain form
  have pairs := paired.above
  cases kind with
  | client =>
      obtain ⟨member', call', up', verb', above', memberKind, object, found', method, callKind,
        function⟩ := clientForm_cases form
      rw [above'] at pairs
      obtain ⟨member, rest, memberStands, pairs, above⟩ := List.forall₂_cons_right_iff.mp pairs
      obtain ⟨call, up, callStands, _, rfl⟩ := List.forall₂_cons_right_iff.mp pairs
      have kind := memberStands.kind ▸ memberKind
      obtain ⟨member_in, _⟩ := Node.parent_mem_allPlaces inTree above
      obtain ⟨_, same⟩ := memberStands
      have wf : member.WellFormed := (regular.wellFormed.place member_in).2.1
      obtain ⟨verb, found, kept⟩ := same.child?_back wf (by simp [kind]) (by simp [kind]) found'
      have isWord := regular.property _ member_in kind verb found
      have spelled := kept_word kept isWord fun head => by
        have other := child?_role found
        simp [Node.plays, other] at head
      refine clientForm_of plain above kind (paired.plays object) found (spelled ▸ method)
        (callStands.kind ▸ callKind) (StandsFor.plays ⟨_, same⟩ function)
  | accessor =>
      obtain ⟨call', up', args', above', callKind, function, found', isArguments, empty⟩ :=
        accessorForm_cases form
      rw [above'] at pairs
      obtain ⟨call, up, callStands, _, above⟩ := List.forall₂_cons_right_iff.mp pairs
      have kind := callStands.kind ▸ callKind
      obtain ⟨call_in, _⟩ := Node.parent_mem_allPlaces inTree above
      obtain ⟨_, same⟩ := callStands
      have wf : call.WellFormed := (regular.wellFormed.place call_in).2.1
      obtain ⟨args, found, kept⟩ := same.child?_back wf (by simp [kind]) (by simp [kind]) found'
      have args_same : Unswapped ch source text call.kind args args' := by
        rcases kept_cases kept with ⟨_, _, _, stands⟩ | args_same
        · cases stands with
          | name => cases isArguments
          | call inline =>
              cases inline
              cases isArguments
        · exact args_same
      have args_kind := args_same.kind ▸ isArguments
      refine accessorForm_of plain above kind (paired.plays function) found args_kind ?_
      rw [List.eq_nil_iff_forall_not_mem] at empty ⊢
      intro c listed
      obtain ⟨isChild, named⟩ := List.mem_filter.mp listed
      obtain ⟨c', isChild', kept'⟩ := args_same.children.forth (by simp [args_kind]) isChild
      exact empty c' (List.mem_filter.mpr ⟨isChild', kept_named kept' named⟩)

theorem forall₂_mem {α β : Type} {R : α → β → Prop} {a : α} {up : List α} {up' : List β}
    (pairs : List.Forall₂ R up up') (passed : a ∈ up) : ∃ a' ∈ up', R a a' := by
  induction pairs with
  | nil => cases passed
  | cons stands _ rest =>
      rcases List.mem_cons.mp passed with rfl | further
      · exact ⟨_, by simp, stands⟩
      · obtain ⟨a', passed', stands'⟩ := rest further
        exact ⟨a', by simp [passed'], stands'⟩

/-- What is declared around a place is declared around the place that stands for it. -/
theorem shadowed_forth {name : String} {up up' : List Node}
    (pairs : List.Forall₂ (StandsFor ch source text) up up')
    (regular : ∀ a ∈ up, a.WellFormed ∧ HasWordNames a)
    (wf' : ∀ a ∈ up', a.WellFormed) (shadowed : up.any (·.declares source name)) :
    up'.any (·.declares text name) := by
  induction pairs with
  | nil => cases shadowed
  | cons stands _ rest =>
      obtain ⟨_, same⟩ := stands
      rw [List.any_cons, Bool.or_eq_true] at shadowed ⊢
      refine shadowed.imp (fun declared => ?_) (fun further => ?_)
      · obtain ⟨wf, word⟩ := regular _ List.mem_cons_self
        exact same.declares wf (wf' _ List.mem_cons_self) word declared
      · exact rest (fun a passed => regular a (by simp [passed]))
          (fun a passed => wf' a (by simp [passed])) further

theorem Regular.above (regular : Regular tree) (inTree : p ∈ tree.allPlaces) :
    ∀ a ∈ p.above, a.WellFormed ∧ HasWordNames a := by
  intro a passed
  obtain ⟨above, place⟩ := Node.within_above inTree passed
  refine ⟨(regular.wellFormed.place place).2.1, fun m isPart named => ?_⟩
  rcases isPart with rfl | isChild
  · exact regular.ownName _ place named
  · exact regular.ownName _ (Node.child_mem_places place rfl isChild) named

/-- A reference that is free in the new tree was free in the old one. -/
theorem Paired.replaceable (paired : Paired ch source text p p') (regular : Regular tree)
    (regular' : Regular tree') (inTree : p ∈ tree.allPlaces) {kind : BindingKind} {name : String}
    (leftover : IsReplaceable config text tree' kind name p') :
    IsReplaceable config source tree kind name p := by
  have use := leftover.use
  have form := paired.replaces regular inTree leftover.form
  have plain := replaces_plain form
  obtain ⟨k, _, same⟩ := paired.node
  have spelled := same.name (by rw [plain]; rfl)
  refine ⟨⟨inTree, fun a passed isImport => ?_, Or.inl plain, spelled ▸ use.same, ?_⟩, form⟩
  · obtain ⟨a', passed', stands⟩ := forall₂_mem paired.above passed
    exact use.outside a' passed' (stands.kind.trans isImport)
  · rw [← Bool.not_eq_true]
    intro shadowed
    have free := use.unshadowed
    have wf' : ∀ a ∈ p'.above, a.WellFormed := fun a passed => (regular'.above use.inTree a passed).1
    have shadowed' := shadowed_forth paired.above (regular.above inTree) wf' shadowed
    rw [Place.isShadowed, spelled, shadowed'] at free
    cases free

/-! ## Names put in for clients -/

section

variable {s : Setting}

/-- The body around a place is the body of a function and stands above the place. -/
theorem bodyAround?_above {b : Node} (wf : tree.WellFormed) (inTree : p ∈ tree.allPlaces)
    (isWord : p.node.kind.isWord) (around : bodyAround? p = some b) :
    ∃ f through up, p.above = through ++ b :: f :: up ∧ ⟨f, up⟩ ∈ tree.allPlaces ∧
      f.kind.isFunction ∧ f.child? .body = some b ∧ b.kind = .statementBlock ∧ b.start < b.stop := by
  obtain ⟨through, f, up, chain, _, isFunction, body, kind⟩ := inBody_of_around wf inTree isWord around
  have below : p.Under ⟨b, f :: up⟩ := ⟨through, chain⟩
  have b_in : ⟨b, f :: up⟩ ∈ tree.allPlaces := (Node.under_mem_places inTree below).1
  have long := ((wf.place inTree).2.1.word isWord).1
  have bytes := wf.under_bytes inTree below
  exact ⟨f, through, up, chain, (Node.parent_mem_allPlaces b_in rfl).1, isFunction, body, kind,
    Nat.lt_of_le_of_lt bytes.1 (Nat.lt_of_lt_of_le long bytes.2)⟩

/-- A body does not lie below another part of the bytes of that body. -/
theorem body_not_below {b b' f' : Node} {up up' : List Node} (regular : Regular tree)
    (inTree : ⟨b, up⟩ ∈ tree.allPlaces) (kind : b.kind = .statementBlock)
    (f'_in : ⟨f', up'⟩ ∈ tree.allPlaces) (isFunction : f'.kind.isFunction)
    (body : f'.child? .body = some b') (start : b.start = b'.start) {c : Node}
    (isChild : c ∈ b.children) : ⟨b', f' :: up'⟩ ∉ c.places (fun _ => true) (b :: up) := by
  intro lower
  have wf : b.WellFormed := (regular.wellFormed.place inTree).2.1
  have longer := regular.head _ f'_in isFunction b' body
  rcases Node.parent_mem_places lower with top | ⟨q, inside, _, _, chain⟩
  · cases top
    rw [kind] at isFunction
    cases isFunction
  · cases chain
    have c_place := wf.child isChild
    have q_place := c_place.2.1.place inside
    simp only at longer
    omega

/-- The bytes of a function's body belong to no other function's body. -/
theorem body_unique {b b' f f' : Node} {up up' : List Node} (regular : Regular tree)
    (f_in : ⟨f, up⟩ ∈ tree.allPlaces) (f'_in : ⟨f', up'⟩ ∈ tree.allPlaces)
    (isFunction : f.kind.isFunction) (isFunction' : f'.kind.isFunction)
    (body : f.child? .body = some b) (body' : f'.child? .body = some b')
    (kind : b.kind = .statementBlock) (kind' : b'.kind = .statementBlock) (long : b.start < b.stop)
    (start : b.start = b'.start) (stop : b.stop = b'.stop) : b = b' := by
  have b_in : ⟨b, f :: up⟩ ∈ tree.allPlaces :=
    Node.child_mem_places f_in rfl (Node.child?_mem body)
  have b'_in : ⟨b', f' :: up'⟩ ∈ tree.allPlaces :=
    Node.child_mem_places f'_in rfl (Node.child?_mem body')
  rcases regular.wellFormed.places_cases b_in b'_in with
    same | left | right | ⟨c, isChild, lower⟩ | ⟨c, isChild, lower⟩
  · exact congrArg Place.node same
  · simp only at left
    omega
  · simp only at right
    omega
  · exact absurd lower (body_not_below regular b_in kind f'_in isFunction' body' start isChild)
  · exact absurd lower (body_not_below regular b'_in kind' f_in isFunction body start.symm isChild)

/-- Where a name comes in for a client, a block around it declares the name or gets to declare it. -/
theorem swapped_declared {k : Kind} {new : Text} (regular : Regular tree)
    (inTree : p ∈ tree.allPlaces) (swap : (Changes.ofCalls s tree source).swap k p.node new)
    (word : '(' ∉ new) :
    ∃ block ∈ p.above, block.kind = .statementBlock ∧
      (block.declares source (String.ofList new) ∨
        (Changes.ofCalls s tree source).declare block (String.ofList new)) := by
  obtain ⟨⟨_, plain, _⟩, made⟩ := swap
  have isWord : p.node.kind.isWord := by
    rw [plain]
    rfl
  have needed : s.bindings.replaces .client := by
    by_contra unneeded
    rw [callSiteEdits, redirected, if_neg unneeded] at made
    cases made
  have planned := @redirected_planned s source tree needed
  rcases planned.edits _ made with ⟨q, _, d, _, declares⟩ | ⟨q, visited, call, text, stands, same⟩
  · have empty := declarationEdit?_empty declares.edit
    have long := ((regular.wellFormed.place inTree).2.1.word isWord).1
    exact absurd empty (Nat.ne_of_lt long)
  · injection same with start stop same
    subst same
    have q_plain := (isClientCall_heads call).1
    have one : p = q := regular.wellFormed.word_unique inTree (callPlaces_identifier visited).1 isWord
      (by rw [q_plain]; rfl) start stop
    subst one
    cases stands with
    | call =>
        refine absurd ?_ word
        simp [Setting.factoryCall, String.toList_append]
    | existing around found =>
        obtain ⟨f, through, up, chain, _, _, _, kind, _⟩ :=
          bodyAround?_above regular.wellFormed inTree isWord around
        refine ⟨_, by simp [chain], kind, Or.inl ?_⟩
        rw [String.ofList_toList]
        exact declares_iff.mpr ((existingClient?_constructs found).declares kind)
    | @declared block d around logged start' stop' =>
        -- the log knows the block by its bytes, which only one body has
        obtain ⟨f, through, up, chain, f_in, isFunction, body, kind, long⟩ :=
          bodyAround?_above regular.wellFormed inTree isWord around
        obtain ⟨q, q_seen, e, _, declares⟩ := planned.declared d logged
        have q_word : q.node.kind.isWord := by
          rw [(isClientCall_heads declares.call).1]
          rfl
        obtain ⟨f', _, up', _, f'_in, isFunction', body', kind', _⟩ :=
          bodyAround?_above regular.wellFormed (callPlaces_identifier q_seen).1 q_word declares.around
        have one : block = d.1 := body_unique regular f_in f'_in isFunction isFunction' body body' kind
          kind' long start'.symm stop'.symm
        refine ⟨block, by simp [chain], kind, Or.inr ?_⟩
        rw [String.ofList_toList, one]
        exact logged

theorem IsClient.block_declares {block d : Node} {name : String} (client : IsClient text name d)
    (isChild : d ∈ block.children) (kind : block.kind = .statementBlock) :
    block.declares text name := by
  have noFunction : ¬ block.kind.isFunction := by
    rw [kind]
    exact Bool.false_ne_true
  have named : d.kind.isNamed := by
    cases client
    rfl
  rw [Node.declares, if_neg noFunction, kind]
  exact List.any_eq_true.mpr ⟨d, namedChild_of_kind isChild named, client.declaresInBlock⟩

/-- A name that comes in for a client is declared around the place that it comes to. -/
theorem swapped_shadowed {k : Kind} {new : Text} {up : List Node} (regular : Regular tree)
    (inTree : p ∈ tree.allPlaces) (swap : (Changes.ofCalls s tree source).swap k p.node new)
    (word : '(' ∉ new)
    (pairs : List.Forall₂ (StandsFor (.ofCalls s tree source) source text) p.above up)
    (wf' : ∀ a ∈ up, a.WellFormed) : up.any (·.declares text (String.ofList new)) := by
  obtain ⟨block, passed, kind, declared⟩ := swapped_declared regular inTree swap word
  obtain ⟨block', passed', _, same⟩ := forall₂_mem pairs passed
  have kind' : block'.kind = .statementBlock := same.kind.trans kind
  refine List.any_eq_true.mpr ⟨block', passed', ?_⟩
  rcases declared with before | declare
  · obtain ⟨wf, words⟩ := regular.above inTree block passed
    exact same.declares wf (wf' block' passed') words before
  · obtain ⟨d, isChild, client⟩ := same.declared _ declare
    exact client.block_declares isChild kind'

theorem accessorEdit_call {e : Edit} (made : e ∈ accessorEdits s tree source) :
    e.text = (s.factoryCall .auth).toList := by
  unfold accessorEdits at made
  split at made
  · obtain ⟨p, _, edit⟩ := List.mem_filterMap.mp made
    split at edit
    · obtain ⟨call, _, rfl⟩ := Option.map_eq_some_iff.mp edit
      rfl
    · cases edit
  · cases made

theorem factoryCall_opens (preset : Preset) : '(' ∈ (s.factoryCall preset).toList := by
  simp [Setting.factoryCall, String.toList_append]

end

/-! ## One rule -/

/-- The rule for the references to a binding of the kind. -/
def BindingKind.rule : BindingKind → Rule
  | .client => .callSites
  | .accessor => .authAccessor

theorem rule_movesImports : ∀ kind : BindingKind, ¬ kind.rule.movesImports
  | .client => Bool.false_ne_true
  | .accessor => Bool.false_ne_true

section

variable {read : Reader} {path : Path} {s : Setting} {d : Draft} {rule : Rule} {kind : BindingKind}
  {name : String}

/-- What stands for a replaceable reference was not replaced by the rule for it. -/
theorem Paired.not_replaced (paired : Paired (.of s d.tree d.text kind.rule) d.text text p p')
    (form : kind.replaces config d.text p) : ¬ Replaced s d.text d.tree p kind := by
  have plain := replaces_plain form
  cases kind with
  | client =>
      rintro ⟨new, made⟩
      obtain ⟨member, _, _, _, above, memberKind, object, _⟩ := clientForm_cases form
      obtain ⟨k, parent, same⟩ := paired.node
      have below : k = .memberExpression := by
        rw [← parent member (by simp [above]), memberKind]
      exact same.fixed new ⟨⟨below, plain, object⟩, made⟩
  | accessor =>
      rintro ⟨call, new, isParent, _, made⟩
      obtain ⟨call', _, _, above, callKind, _⟩ := accessorForm_cases form
      have one : call' = call := by simpa [Place.parent?, above] using isParent
      subst one
      obtain ⟨_, _, _, same⟩ := forall₂_mem paired.above (a := call') (by simp [above])
      exact same.fixed new ⟨callKind, made⟩

/-- A replaceable reference in what a rule makes was one before, and the rule has left it alone. -/
theorem Reached.replaceable_before (law : Faithful read)
    (reached : Reached read {} path source rule s d) (apart : LeavesApart s d rule)
    (made : rewritten s d rule = .ok text) (reads : read (hasMarkup path) text = .ok tree)
    (leftover : IsReplaceable config text tree kind name p') :
    ∃ p, IsReplaceable config d.text d.tree kind name p ∧
      (rule = kind.rule → ¬ Replaced s d.text d.tree p kind) := by
  have regular := law.regular reached.reads
  have regular' := law.regular reads
  have use := leftover.use
  have kept := law.code reached apart made reads
  have comesFrom := origin kept use.inTree
  cases comesFrom with
  | @kept p inside paired =>
      have before := paired.replaceable regular regular' inside leftover
      refine ⟨p, before, ?_⟩
      rintro rfl
      exact paired.not_replaced before.form
  | @swapped p k new n' up inside swap stands above lower =>
      exfalso
      cases stands with
      | call inline => exact inline.quiet lower kind leftover.form
      | @name r a b word spelled =>
          have here : p' = ⟨.mk .identifier r a b [], up⟩ := by
            simpa [Node.places, Node.placesIn] using lower
          subst here
          -- only the rule for calls puts names in; what the rule for the accessor puts in has a parenthesis
          cases rule with
          | callSites =>
              have wf' : ∀ a ∈ up, a.WellFormed := fun a passed =>
                (regular'.above use.inTree a passed).1
              have shadowed := swapped_shadowed regular inside swap word above wf'
              have free := use.unshadowed
              rw [← spelled] at shadowed
              rw [Place.isShadowed] at free
              exact Bool.false_ne_true (free.symm.trans shadowed)
          | authAccessor =>
              have isCall : new = (s.factoryCall .auth).toList := accessorEdit_call swap.2
              rw [isCall] at word
              exact word (factoryCall_opens .auth)
          | _ => exact swap
  | declared _ client lower => exact absurd leftover.form (client.quiet lower kind)
  | @imported a passed isImport =>
      exfalso
      rcases passed with rfl | above
      · rw [replaces_plain leftover.form] at isImport
        cases isImport
      · exact use.outside a above isImport

/-! ## A whole run -/

/-- Replaceable references in what some rules make of a draft were replaceable in the draft. -/
theorem Leads.replaceable_before (law : Faithful read)
    (apart : ∀ {rule d}, Reached read {} path source rule s d → LeavesApart s d rule)
    {rules before after : List Rule} {d d' : Draft} {p' : Place}
    (split : Rule.all = before ++ rules ++ after) (leads : Leads read {} path source before s d)
    (ran : rules.foldlM (Draft.step read path s) d = .ok d')
    (leftover : IsReplaceable config d'.text d'.tree kind name p') :
    ∃ p, IsReplaceable config d.text d.tree kind name p := by
  refine Leads.preserves (P := fun e => ∀ p, IsReplaceable config e.text e.tree kind name p →
    ∃ p, IsReplaceable config d.text d.tree kind name p) split leads ran ?_
    (fun p here => ⟨p, here⟩) p' leftover
  intro rule _ e e' reached made reads further p here
  obtain ⟨q, before_here, _⟩ := reached.replaceable_before law (apart reached) made reads here
  exact further q before_here

/-- The rule for a binding acts on each replaceable reference to it. -/
theorem IsReplaceable.replaced {b : Binding} (wf : tree.WellFormed)
    (leftover : IsReplaceable s.config source tree b.kind b.name p)
    (distinct : s.bindings.Distinct) (listed : b ∈ s.bindings.list) (needed : 0 < b.replaceable) :
    Replaced s source tree p b.kind := by
  have use := leftover.use
  have plain := replaces_plain leftover.form
  refine (replaced_iff wf use.inTree plain b.kind).mpr ⟨?_, ?_, ?_⟩
  · exact List.any_eq_true.mpr ⟨b, listed, by simp [needed]⟩
  · exact (mem_callPlaces wf).mpr ⟨use.inTree, use.outside, plain⟩
  · have isKind : s.bindings.isKind b.kind (p.node.name source) := by
      rw [use.same]
      exact (distinct.isKind listed b.kind).mpr rfl
    have form := leftover.form
    cases kind : b.kind <;>
      simp_all [actsOn, isClientCall, isAccessorCall, BindingKind.replaces, use.unshadowed]

/-- A binding is counted as replaceable if one of its references is. -/
theorem replaceable_pos_iff {b : Binding} (wf : tree.WellFormed)
    (listed : b ∈ (Bindings.collect config source tree).list) :
    0 < b.replaceable ↔ ∃ p, IsReplaceable config source tree b.kind b.name p := by
  rw [(Bindings.mem_collect listed).2, List.length_pos_iff_exists_mem]
  constructor
  · rintro ⟨p, inside⟩
    obtain ⟨referred, form⟩ := List.mem_filter.mp inside
    exact ⟨p, (mem_references wf).mp referred, form⟩
  · rintro ⟨p, use, form⟩
    exact ⟨p, List.mem_filter.mpr ⟨(mem_references wf).mpr use, form⟩⟩

/-- What a module imports at the start of a run has no replaceable reference at its end. -/
theorem run_uses_up (law : Faithful read)
    (apart : ∀ {rule d}, Reached read {} path source rule s d → LeavesApart s d rule) {d : Draft}
    (leads : Leads read {} path source Rule.all s d) {b : Binding} (listed : b ∈ s.bindings.list) :
    ∀ p, ¬ IsReplaceable {} d.text d.tree b.kind b.name p := by
  intro p leftover
  -- the reference goes back over the rule for its kind, and from there to the start, where it counts
  obtain ⟨before, after, split⟩ : ∃ before after, Rule.all = before ++ b.kind.rule :: after :=
    List.append_of_mem (by cases b.kind <;> decide)
  obtain ⟨tree, reads, same, ran⟩ := leads.run
  rw [split] at ran
  obtain ⟨d₁, ran_before, ran⟩ := foldlM_append_inv ran
  obtain ⟨d₂, stepped, ran_after⟩ := foldlM_cons_inv ran
  have leads₁ : Leads read {} path source before s d₁ := ⟨leads.notTest, tree, reads, same, ran_before⟩
  have reached : Reached read {} path source b.kind.rule s d₁ := leads₁.reached split
  obtain ⟨made, reads₂⟩ := step_made reached.reads stepped
  have split_after : Rule.all = (before ++ [b.kind.rule]) ++ after ++ [] := by simp [split]
  obtain ⟨p₂, leftover₂⟩ :=
    Leads.replaceable_before law apart split_after (leads₁.step stepped) ran_after leftover
  obtain ⟨p₁, leftover₁, alone⟩ :=
    reached.replaceable_before law (apart reached) made reads₂ leftover₂
  have start : Leads read {} path source [] s ⟨source, tree, []⟩ :=
    ⟨leads.notTest, tree, reads, same, rfl⟩
  obtain ⟨p₀, leftover₀⟩ :=
    Leads.replaceable_before law apart split start ran_before leftover₁
  subst same
  have needed := (replaceable_pos_iff (law.regular reads).wellFormed listed).mpr ⟨p₀, leftover₀⟩
  exact alone rfl (leftover₁.replaced (law.regular reached.reads).wellFormed
    (Bindings.collect_distinct tree) listed needed)

end

end ClientMigration.Codemod
