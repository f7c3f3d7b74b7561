/-
# Proofs.Codemod.KeptCalls -- calls that stay with the legacy client

A reference to a legacy client that is no request (`apiClient.postForm(..)`,
`apiClient['get'](..)`) is not replaced, and the call that it heads stays. Of
such a call with a literal (`KeptCall`), the name and the literal and all that is
above them stay where they are, and no edit of the rules for calls touches the
literal. What stands for the literal in the next text is the literal of such a
call again (`KeptCall.forth`), so a run can be followed rule by rule.

What a rule does not touch is spelled as it was: `Verbatim` says so of a reader.
-/
import ClientMigration.Proofs.Codemod.Carried

namespace ClientMigration.Codemod

set_option autoImplicit false

open Script

variable {read : Reader} {path : Path} {source text : Text} {tree tree' : Node} {s : Setting}
  {d : Draft} {rule : Rule} {call q p : Place} {name : String}

/-! ## Readers that spell alike what is not touched -/

/-- The changes of a rule to a draft, where what its edits do not touch is spelled as it was. -/
def Changes.verbatim (s : Setting) (d : Draft) (rule : Rule) : Changes :=
  { Changes.of s d.tree d.text rule with
    respell := fun n new => (Changes.of s d.tree d.text rule).respell n new ∨
      (∀ e ∈ rule.edits s d.tree d.text, e.stop ≤ n.start ∨ n.stop ≤ e.start) ∧
        new = n.text d.text }

/-- A reader that makes of the texts of a run the trees with the changes of the rules, literals that no
edit touches being spelled as they were. A literal has quotes, so that its parts do not take up all of
it. -/
structure Verbatim (read : Reader) : Prop where
  regular : ∀ {markup source tree}, read markup source = .ok tree → Regular tree
  quoted : ∀ {markup source tree}, read markup source = .ok tree → ∀ p ∈ tree.allPlaces,
    isLiteral p.node → p.node.start < p.node.stop ∧
      ∀ c ∈ p.node.children, ¬ (c.start = p.node.start ∧ c.stop = p.node.stop)
  code : ∀ {path source rule s d text tree}, Reached read {} path source rule s d →
    LeavesApart s d rule → rewritten s d rule = .ok text → read (hasMarkup path) text = .ok tree →
    Kept (.verbatim s d rule) d.text text .program d.tree tree

/-! ## Calls that no rule replaces -/

/-- A call through a name that is not called in the way that a rule replaces, with a literal. Nothing in
the literal is replaced, and no call of the accessor around the name or the literal. -/
structure KeptCall (s : Setting) (source : Text) (tree : Node) (name : String) (call q p : Place) :
    Prop where
  argument : IsArgument tree call q p
  outside : ∀ a ∈ q.above, a.kind ≠ .importStatement
  spelled : q.node.kind = .identifier ∨ q.node.kind = .shorthandPropertyIdentifier
  same : q.node.name source = name
  form : ¬ BindingKind.client.replaces s.config source q
  literal : isLiteral p.node
  inside : ∀ b ∈ s.bindings.list, ∀ r, IsReplaceable s.config source tree b.kind b.name r → ¬ r.Under p
  around : ∀ b ∈ s.bindings.list, b.kind = .accessor → ∀ r c up,
    IsReplaceable s.config source tree b.kind b.name r → r.above = c :: up →
      ¬ q.Under ⟨c, up⟩ ∧ ¬ p.Under ⟨c, up⟩

namespace KeptCall

theorem name_word (kept : KeptCall s source tree name call q p) : q.node.kind.isWord := by
  rcases kept.spelled with kind | kind
  · rw [kind]
    rfl
  · rw [kind]
    rfl

/-- The name and what is above it stay where they are. -/
theorem name_stays (kept : KeptCall s source tree name call q p) (wf : tree.WellFormed) :
    ∀ a ∈ q.node :: q.above, (Changes.of s tree source rule).StaysPut a := by
  have q_in := kept.argument.name_mem
  intro a passed
  rcases List.mem_cons.mp passed with rfl | above
  · refine ⟨by rcases kept.spelled with kind | kind <;> simp [kind], fun k new swap => ?_⟩
    rcases swap_cases swap with ⟨plain, made⟩ | ⟨isCall, _⟩
    · obtain ⟨b, _, client, leftover⟩ := clientEdit_replaceable wf q_in plain made
      have form := leftover.form
      rw [client] at form
      exact kept.form form
    · rcases kept.spelled with kind | kind <;> simp [kind] at isCall
  · refine ⟨kept.outside a above, fun k new swap => ?_⟩
    rcases swap_cases swap with ⟨plain, _⟩ | ⟨_, made⟩
    · exact wf.above_not_word q_in (List.append_nil _).symm a above (by rw [plain]; rfl)
    · -- the name has the bytes of a call of the accessor around it, and so is below that call
      obtain ⟨r, c, up, r_above, isCall, start, stop, b, listed, accessor, leftover⟩ :=
        accessorEdit_replaceable wf made
      obtain ⟨through, rest, chain⟩ := List.append_of_mem above
      have lies := wf.under_bytes q_in (⟨through, chain⟩ : q.Under ⟨a, rest⟩)
      have c_in := (Node.parent_mem_allPlaces leftover.use.inTree r_above).1
      refine (kept.around b listed accessor r c up leftover r_above).1 ?_
      refine wf.word_under q_in c_in kept.name_word (by simp [isCall, Kind.isWord]) ?_ ?_
      · exact start ▸ lies.1
      · exact stop ▸ lies.2

/-- So do the literal and what is above it. -/
theorem literal_stays (kept : KeptCall s source tree name call q p) (wf : tree.WellFormed) :
    ∀ a ∈ p.node :: p.above, (Changes.of s tree source rule).StaysPut a := by
  have around (a : Node) (passed : a ∈ call.node :: call.above) :
      (Changes.of s tree source rule).StaysPut a :=
    kept.name_stays wf a (List.mem_cons_of_mem _ (kept.argument.above_name a passed))
  have put {n : Node} (noImport : n.kind ≠ .importStatement) (noName : n.kind ≠ .identifier)
      (noCall : n.kind ≠ .callExpression) : (Changes.of s tree source rule).StaysPut n := by
    refine ⟨noImport, fun k new swap => ?_⟩
    rcases swap_cases swap with ⟨plain, _⟩ | ⟨isCall, _⟩
    · exact noName plain
    · exact noCall isCall
  have noImport : p.node.kind ≠ .importStatement := by
    intro isImport
    have literal := kept.literal
    simp [isLiteral, isImport] at literal
  obtain ⟨noName, noCall, _⟩ := isLiteral_kind kept.literal
  intro a passed
  rcases List.mem_cons.mp passed with rfl | above
  · exact put noImport noName noCall
  · obtain ⟨args, _, _, rfl | ⟨args_kind, _, p_above⟩⟩ := kept.argument.arguments
    · exact around a above
    · rw [p_above] at above
      rcases List.mem_cons.mp above with rfl | above
      · exact put (by simp [args_kind]) (by simp [args_kind]) (by simp [args_kind])
      · exact around a above

/-- A replaceable reference lies beside the literal. -/
theorem beside_reference (kept : KeptCall s source tree name call q p) (wf : tree.WellFormed)
    {b : Binding} {r : Place} (listed : b ∈ s.bindings.list)
    (leftover : IsReplaceable s.config source tree b.kind b.name r) :
    r.node.stop ≤ p.node.start ∨ p.node.stop ≤ r.node.start := by
  have plain := replaces_plain leftover.form
  rcases wf.places_under leftover.use.inTree kept.argument.mem with same | left | right | below | under
  · rw [same] at plain
    exact absurd plain (isLiteral_kind kept.literal).1
  · exact Or.inl left
  · exact Or.inr right
  · exact absurd below (wf.not_under_word kept.argument.mem (by rw [plain]; rfl))
  · exact absurd under (kept.inside b listed r leftover)

/-- So does a call of the accessor that is replaced. -/
theorem beside_accessor (kept : KeptCall s source tree name call q p) (wf : tree.WellFormed)
    {b : Binding} {r : Place} {c : Node} {up : List Node} (listed : b ∈ s.bindings.list)
    (accessor : b.kind = .accessor) (leftover : IsReplaceable s.config source tree b.kind b.name r)
    (above : r.above = c :: up) (isCall : c.kind = .callExpression) :
    c.stop ≤ p.node.start ∨ p.node.stop ≤ c.start := by
  have c_in := (Node.parent_mem_allPlaces leftover.use.inTree above).1
  rcases wf.places_under c_in kept.argument.mem with same | left | right | below | ⟨through, chain⟩
  · rw [← same] at kept
    exact absurd isCall (isLiteral_kind kept.literal).2.1
  · exact Or.inl left
  · exact Or.inr right
  · exact absurd below (kept.around b listed accessor r c up leftover above).2
  · refine absurd ⟨c :: through, ?_⟩ (kept.inside b listed r leftover)
    have chain : up = through ++ p.node :: p.above := chain
    rw [above, chain]
    rfl

/-- And so does what comes in front of the statements of a body. -/
theorem beside_declaration (kept : KeptCall s source tree name call q p) (wf : tree.WellFormed)
    {r : Place} {block : Node × String} {e : Edit} (visited : r ∈ callPlaces tree)
    (declares : Declaration s source r block e) : e.stop ≤ p.node.start ∨ p.node.stop ≤ e.start := by
  have acts : actsOn s source r .client := declares.call
  obtain ⟨b, listed, _, leftover⟩ := actsOn_replaceable wf visited acts
  have r_word : r.node.kind.isWord := by
    rw [replaces_plain leftover.form]
    rfl
  have r_in := leftover.use.inTree
  obtain ⟨f, through, up, r_above, f_in, _, body, isBlock, _⟩ :=
    bodyAround?_above wf r_in r_word declares.around
  obtain ⟨empty, anchor, isChild, other, start⟩ := declarationEdit?_anchor declares.edit
  have block_in : ⟨block.1, f :: up⟩ ∈ tree.allPlaces :=
    Node.child_mem_places f_in rfl (Node.child?_mem body)
  have anchor_in : ⟨anchor, block.1 :: f :: up⟩ ∈ tree.allPlaces :=
    Node.child_mem_places block_in rfl isChild
  have le := (wf.place anchor_in).2.1.le
  rcases wf.places_under anchor_in kept.argument.mem with same | left | right | below | ⟨between, chain⟩
  · rw [← same] at kept
    exact absurd kept.literal other
  · have left : anchor.stop ≤ p.node.start := left
    omega
  · have right : p.node.stop ≤ anchor.start := right
    have le : anchor.start ≤ anchor.stop := le
    omega
  · have inside : p.node.stop ≤ anchor.stop := (wf.under_bytes kept.argument.mem below).2
    omega
  · -- a part of the block is below the literal, so the reference is
    exfalso
    have chain : block.1 :: f :: up = between ++ p.node :: p.above := chain
    cases between with
    | nil =>
        injection chain with same
        have literal := kept.literal
        rw [← same] at literal
        simp [isLiteral, isBlock] at literal
    | cons top between =>
        injection chain with same chain
        refine kept.inside b listed r leftover ⟨through ++ block.1 :: between, ?_⟩
        rw [r_above, chain]
        simp

/-- No edit of the rules for calls touches the literal. -/
theorem untouched (kept : KeptCall s source tree name call q p) (wf : tree.WellFormed)
    (forCalls : rule = .callSites ∨ rule = .authAccessor) :
    ∀ e ∈ rule.edits s tree source, e.stop ≤ p.node.start ∨ p.node.stop ≤ e.start := by
  intro e made
  rcases forCalls with rfl | rfl
  · have made : e ∈ callSiteEdits s tree source := made
    have needed : s.bindings.replaces .client := by
      by_contra unneeded
      rw [callSiteEdits, redirected, if_neg unneeded] at made
      cases made
    rcases (redirected_planned needed).edits e made with
      ⟨r, visited, block, _, declares⟩ | ⟨r, visited, call, new, _, rfl⟩
    · exact kept.beside_declaration wf visited declares
    · have acts : actsOn s source r .client := call
      obtain ⟨b, listed, _, leftover⟩ := actsOn_replaceable wf visited acts
      exact kept.beside_reference wf listed leftover
  · obtain ⟨r, c, up, above, isCall, start, stop, b, listed, accessor, leftover⟩ :=
      accessorEdit_replaceable wf made
    rw [start, stop]
    exact kept.beside_accessor wf listed accessor leftover above isCall

/-! ## One rule -/

/-- What a call of the accessor becomes has a parenthesis, and so is no name. -/
theorem callSwap_opens {k : Kind} {n : Node} {new : Text} (isCall : n.kind = .callExpression)
    (swap : (Changes.of s tree source rule).swap k n new) : '(' ∈ new := by
  rcases swap_cases swap with ⟨plain, _⟩ | ⟨_, made⟩
  · rw [plain] at isCall
    cases isCall
  · have same : new = (s.factoryCall .auth).toList := accessorEdit_call made
    rw [same]
    exact factoryCall_opens .auth

/-- In the literal that stands for the literal, nothing is replaceable either. -/
theorem inside_forth (kept : KeptCall s d.text d.tree name call q p) (regular : Regular d.tree)
    (regular' : Regular tree') {p' r' : Place} {b : Binding} (listed : b ∈ s.bindings.list)
    (paired : Paired (.verbatim s d rule) d.text text p p')
    (leftover : IsReplaceable s.config text tree' b.kind b.name r') : ¬ r'.Under p' := by
  intro under
  have p_in := kept.argument.mem
  have wf := regular.wellFormed
  obtain ⟨noName, noCall, noWord⟩ := isLiteral_kind kept.literal
  have lower := (Node.under_mem_places leftover.use.inTree under).2
  obtain ⟨k, parent, same⟩ := paired.node
  have comesFrom := kept_origin (.verbatim s d rule) p.node same.kept parent paired.above lower
  cases comesFrom with
  | @kept r inside pair =>
      have before := pair.replaceable regular regular' (Node.places_trans p_in inside) leftover
      rcases Node.mem_places_under inside with rfl | below
      · exact noName (replaces_plain before.form)
      · exact kept.inside b listed r before below
  | @swapped r k new n' up inside swap stands above lower =>
      have r_in := Node.places_trans p_in inside
      have swap : (Changes.of s d.tree d.text rule).swap k r.node new := swap
      rcases swap_cases swap with ⟨plain, made⟩ | ⟨isCall, made⟩
      · obtain ⟨b', listed', _, before⟩ := clientEdit_replaceable wf r_in plain made
        rcases Node.mem_places_under inside with rfl | below
        · exact noName plain
        · exact kept.inside b' listed' r before below
      · obtain ⟨w, c, up, above, _, start, stop, b', listed', _, before⟩ :=
          accessorEdit_replaceable wf made
        have c_in := Node.parent_mem_allPlaces before.use.inTree above
        have w_lies := (wf.place c_in.1).2.1.child c_in.2
        have r_lies := (wf.place p_in).2.1.place inside
        refine kept.inside b' listed' w before ?_
        refine wf.word_under before.use.inTree p_in ?_ noWord ?_ ?_
        · rw [replaces_plain before.form]
          rfl
        · have left : c.start ≤ w.node.start := w_lies.1
          have same : r.node.start = c.start := start
          omega
        · have right : w.node.stop ≤ c.stop := w_lies.2.2
          have same : r.node.stop = c.stop := stop
          omega
  | declared _ client lower => exact client.quiet lower b.kind leftover.form
  | @imported a passed isImport =>
      rcases passed with rfl | above
      · rw [replaces_plain leftover.form] at isImport
        cases isImport
      · exact leftover.use.outside a above isImport

/-- A replaced call of the accessor around what stands for a place was one around the place. -/
theorem around_forth (regular : Regular d.tree) (regular' : Regular tree') {x x' r' : Place}
    {b : Binding} {c' : Node} {up' : List Node} (x_in : x ∈ d.tree.allPlaces)
    (paired : Paired (.verbatim s d rule) d.text text x x')
    (leftover : IsReplaceable s.config text tree' b.kind b.name r') (isCall : c'.kind = .callExpression)
    (above' : r'.above = c' :: up') (under : x'.Under ⟨c', up'⟩) :
    ∃ r c up, IsReplaceable s.config d.text d.tree b.kind b.name r ∧ r.above = c :: up ∧
      x.Under ⟨c, up⟩ := by
  obtain ⟨through', chain'⟩ := under
  have pairs := paired.above
  rw [chain'] at pairs
  -- the node above the place that stands for the call has a part that stands for the reference
  obtain ⟨a, up, ⟨k, same⟩, pairs, chain⟩ :=
    List.forall₂_cons_right_iff.mp (List.forall₂_drop_append x.above through' (c' :: up') pairs)
  have x_chain : x.above = x.above.take through'.length ++ a :: up := by
    rw [← chain, List.take_append_drop]
  have a_in : ⟨a, up⟩ ∈ d.tree.allPlaces :=
    (Node.under_mem_places x_in (⟨_, x_chain⟩ : x.Under ⟨a, up⟩)).1
  have a_call : a.kind = .callExpression := same.kind ▸ isCall
  have isChild' := (Node.parent_mem_allPlaces leftover.use.inTree above').2
  have plain' := replaces_plain leftover.form
  rcases same.children.back isChild' with new | ⟨c, isChild, kept⟩
  · exact absurd new (comes_nowhere (by simp [a_call]) (by simp [a_call]))
  · have c_in := Node.child_mem_places a_in rfl isChild
    have c_same : Unswapped (.verbatim s d rule) d.text text a.kind c r'.node := by
      rcases kept_cases kept with ⟨_, new, swap, stands⟩ | c_same
      · exfalso
        have swap : (Changes.of s d.tree d.text rule).swap a.kind c new := swap
        rcases (Changes.of s d.tree d.text rule).form swap with ⟨member, _⟩ | c_call
        · rw [a_call] at member
          cases member
        · have opens := callSwap_opens c_call swap
          generalize r'.node = n at stands plain'
          cases stands with
          | name word => exact word opens
          | call inline =>
              cases inline
              cases plain'
      · exact c_same
    have pair : Paired (.verbatim s d rule) d.text text ⟨c, a :: up⟩ r' := by
      refine ⟨⟨a.kind, by simp [IsBelow], c_same⟩, ?_⟩
      rw [above']
      exact .cons ⟨k, same⟩ pairs
    exact ⟨⟨c, a :: up⟩, a, up, pair.replaceable regular regular' c_in leftover, rfl, _, x_chain⟩

/-- What stands for the literal is the literal of a call of that kind. -/
theorem forth (kept : KeptCall s d.text d.tree name call q p) (regular : Regular d.tree)
    (regular' : Regular tree') {p' : Place} (p'_in : p' ∈ tree'.allPlaces)
    (paired : Paired (.verbatim s d rule) d.text text p p') :
    ∃ call' q', KeptCall s text tree' name call' q' p' := by
  have q_in := kept.argument.name_mem
  obtain ⟨call', q', argument, q_paired⟩ :=
    kept.argument.forth p'_in paired (kept.name_stays regular.wellFormed)
  have q_kind := q_paired.inner_kind
  obtain ⟨_, _, q_same⟩ := q_paired.node
  refine ⟨call', q', argument, ?_, ?_, ?_, ?_, ?_, ?_, ?_⟩
  · intro a' passed'
    obtain ⟨a, passed, kind⟩ := mem_of_kinds q_paired.kinds passed'
    rw [← kind]
    exact kept.outside a passed
  · rw [q_kind]
    exact kept.spelled
  · exact (q_same.name kept.name_word).trans kept.same
  · exact fun form => kept.form (q_paired.replaces regular q_in form)
  · rw [isLiteral, paired.inner_kind]
    exact kept.literal
  · intro b listed r' leftover
    exact kept.inside_forth regular regular' listed paired leftover
  · intro b listed accessor r' c' up' leftover above'
    have isCall : c'.kind = .callExpression := by
      have form := leftover.form
      rw [accessor] at form
      obtain ⟨c, up, _, above, isCall, _⟩ := accessorForm_cases form
      rw [above'] at above
      injection above with same
      rw [same]
      exact isCall
    constructor
    · intro under
      obtain ⟨r, c, up, before, above, under⟩ :=
        around_forth regular regular' q_in q_paired leftover isCall above' under
      exact (kept.around b listed accessor r c up before above).1 under
    · intro under
      obtain ⟨r, c, up, before, above, under⟩ :=
        around_forth regular regular' kept.argument.mem paired leftover isCall above' under
      exact (kept.around b listed accessor r c up before above).2 under

end KeptCall

end ClientMigration.Codemod
