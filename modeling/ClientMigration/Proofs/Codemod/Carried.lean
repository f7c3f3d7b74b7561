/-
# Proofs.Codemod.Carried -- what becomes of a place when a rule's text is read

The text of a rule is read, and the places of its tree stand for places of the
tree before. Here it is asked the other way round: what becomes of a place. Those
that are in no import and are not swapped, nor any node above them, have places
that stand for them, in the order that they were in (`Kept.sublist_forth`). What
stands for something that is given to a call through a name is given to a call
through that name (`IsArgument.forth`).

What is swapped, and what an edit of the rules for calls takes, belongs to a
replaceable reference (`clientEdit_replaceable`, `accessorEdit_replaceable`).
-/
import ClientMigration.Proofs.Codemod.Settled

namespace ClientMigration.Codemod

set_option autoImplicit false

open Script

variable {config : Config} {source text : Text} {tree tree' : Node} {s : Setting} {ch : Changes}

/-! ## What becomes of a place -/

theorem Unswapped.kept {k : Kind} {n n' : Node} (same : Unswapped ch source text k n n') :
    Kept ch source text k n n' := by
  cases n
  exact ⟨same.role, Or.inr ⟨same.fixed, same.toAsItWas, same.children⟩⟩

/-- The node is no import, and nothing is put in its stead. -/
def Changes.StaysPut (ch : Changes) (n : Node) : Prop :=
  n.kind ≠ .importStatement ∧ ∀ k new, ¬ ch.swap k n new

/-- If the places in each part have ones that stand for them, so have those in all the parts. -/
theorem KeptIn.sublist_forth {k : Kind} {ns ms above above' : List Node}
    (each : ∀ c ∈ ns, ∀ {c' : Node} {ps : List Place}, Kept ch source text k c c' →
      ps.Sublist (c.places (fun _ => true) above) →
      (∀ p ∈ ps, ∀ a ∈ p.node :: p.above, ch.StaysPut a) →
      ∃ ps', ps'.Sublist (c'.places (fun _ => true) above') ∧
        List.Forall₂ (Paired ch source text) ps ps')
    (kept : KeptIn ch source text k ns ms) {ps : List Place}
    (among : ps.Sublist (Node.placesIn (fun _ => true) above ns))
    (stays : ∀ p ∈ ps, ∀ a ∈ p.node :: p.above, ch.StaysPut a) :
    ∃ ps', ps'.Sublist (Node.placesIn (fun _ => true) above' ms) ∧
      List.Forall₂ (Paired ch source text) ps ps' := by
  induction ns generalizing ms ps with
  | nil =>
      rw [Node.placesIn, List.sublist_nil] at among
      subst among
      exact ⟨[], List.nil_sublist _, .nil⟩
  | cons n ns rest =>
      rw [Node.placesIn, List.sublist_append_iff] at among
      obtain ⟨front, back, rfl, front_among, back_among⟩ := among
      have front_stays := fun p listed => stays p (List.mem_append_left back listed)
      have back_stays := fun p listed => stays p (List.mem_append_right front listed)
      have later := fun c listed => @each c (List.mem_cons_of_mem n listed)
      rcases kept with ⟨_, isImport, others⟩ | ⟨put, m, others, rfl, _, first, others_kept⟩
      · -- nothing of an import is among the places
        have none : front = [] := by
          refine List.eq_nil_iff_forall_not_mem.mpr fun p listed => ?_
          rcases imported_below (front_among.subset listed) with same | above
          · exact (front_stays p listed n (by simp [same])).1 isImport
          · exact (front_stays p listed n (List.mem_cons_of_mem _ above)).1 isImport
        subst none
        exact rest later others back_among back_stays
      · obtain ⟨front', front'_among, front_pairs⟩ :=
          each n List.mem_cons_self first front_among front_stays
        obtain ⟨back', back'_among, back_pairs⟩ := rest later others_kept back_among back_stays
        refine ⟨front' ++ back', ?_, List.rel_append front_pairs back_pairs⟩
        rw [Node.placesIn_append, Node.placesIn]
        exact (front'_among.append back'_among).trans (List.sublist_append_right _ _)

/-- Places that are in no import and are not swapped, nor any node above them, have ones that stand for
them, in the same order. -/
theorem Kept.sublist_forth (ch : Changes) (n : Node) : ∀ {k : Kind} {n' : Node}
    {above above' : List Node} {ps : List Place}, Kept ch source text k n n' → IsBelow k above →
      List.Forall₂ (StandsFor ch source text) above above' →
      ps.Sublist (n.places (fun _ => true) above) →
      (∀ p ∈ ps, ∀ a ∈ p.node :: p.above, ch.StaysPut a) →
      ∃ ps', ps'.Sublist (n'.places (fun _ => true) above') ∧
        List.Forall₂ (Paired ch source text) ps ps' := by
  induction n using Node.byChildren with
  | step n below =>
      intro k n' above above' ps kept parent pairs among stays
      by_cases none : ps = []
      · rw [none]
        exact ⟨[], List.nil_sublist _, .nil⟩
      obtain ⟨p, listed⟩ := List.exists_mem_of_ne_nil ps none
      have passed : n ∈ p.node :: p.above := by
        rcases Node.mem_places.mp (among.subset listed) with rfl | ⟨_, c, _, lower⟩
        · exact List.mem_cons_self
        · exact List.mem_cons_of_mem _ ((Node.above_suffix lower).subset List.mem_cons_self)
      have same : Unswapped ch source text k n n' := by
        rcases kept_cases kept with ⟨_, new, swap, _⟩ | same
        · exact absurd swap ((stays p listed n passed).2 k new)
        · exact same
      have pairs' : List.Forall₂ (StandsFor ch source text) (n :: above) (n' :: above') :=
        .cons ⟨k, same⟩ pairs
      have parts {qs : List Place}
          (among : qs.Sublist (Node.placesIn (fun _ => true) (n :: above) n.children))
          (stays : ∀ q ∈ qs, ∀ a ∈ q.node :: q.above, ch.StaysPut a) :=
        same.children.sublist_forth
          (fun c isChild _ _ kept' => below c isChild kept' (by simp [IsBelow]) pairs') among stays
      rw [Node.places_eq, List.sublist_cons_iff] at among
      rw [Node.places_eq]
      rcases among with lower | ⟨further, rfl, lower⟩
      · obtain ⟨ps', lower', paired⟩ := parts lower stays
        exact ⟨ps', lower'.cons _, paired⟩
      · obtain ⟨ps', lower', paired⟩ :=
          parts lower fun q listed => stays q (List.mem_cons_of_mem _ listed)
        exact ⟨⟨n', above'⟩ :: ps', lower'.cons_cons _, .cons ⟨⟨k, parent, same⟩, pairs⟩ paired⟩

/-- One such place has one that stands for it. -/
theorem Kept.forth {n n' : Node} {k : Kind} {above above' : List Node} {p : Place}
    (kept : Kept ch source text k n n') (parent : IsBelow k above)
    (pairs : List.Forall₂ (StandsFor ch source text) above above')
    (inside : p ∈ n.places (fun _ => true) above) (stays : ∀ a ∈ p.node :: p.above, ch.StaysPut a) :
    ∃ p' ∈ n'.places (fun _ => true) above', Paired ch source text p p' := by
  have one : ∀ q ∈ [p], ∀ a ∈ q.node :: q.above, ch.StaysPut a := by
    intro q listed
    rw [List.mem_singleton.mp listed]
    exact stays
  obtain ⟨ps', among, paired⟩ :=
    Kept.sublist_forth ch n kept parent pairs (List.singleton_sublist.mpr inside) one
  cases paired with
  | cons first rest =>
      cases rest
      exact ⟨_, List.singleton_sublist.mp among, first⟩

theorem Paired.kinds {p p' : Place} (paired : Paired ch source text p p') :
    p'.above.map Node.kind = p.above.map Node.kind := by
  have pairs := paired.above
  generalize p.above = up at pairs
  generalize p'.above = up' at pairs
  induction pairs with
  | nil => rfl
  | cons stands _ rest => rw [List.map_cons, List.map_cons, stands.kind, rest]

theorem mem_of_kinds {up up' : List Node} (same : up'.map Node.kind = up.map Node.kind) {a' : Node}
    (passed : a' ∈ up') : ∃ a ∈ up, a.kind = a'.kind := by
  have listed : a'.kind ∈ up.map Node.kind := by
    rw [← same]
    exact List.mem_map_of_mem passed
  exact List.mem_map.mp listed

/-! ## Calls with an argument -/

/-- A node that is given to a call made through a name: the name is somewhere in the function, the
node among the arguments. -/
structure IsArgument (tree : Node) (call q p : Place) : Prop where
  inTree : call ∈ tree.allPlaces
  isCall : call.node.kind = .callExpression
  function : ∃ f ∈ call.node.children, f.plays .function ∧
    q ∈ f.places (fun _ => true) (call.node :: call.above)
  arguments : ∃ args ∈ call.node.children, args.plays .arguments ∧
    (p = ⟨args, call.node :: call.above⟩ ∨
      args.kind = .arguments ∧ p.node ∈ args.children ∧ p.above = args :: call.node :: call.above)

section

variable {call q p : Place}

theorem IsArgument.name_mem (argument : IsArgument tree call q p) : q ∈ tree.allPlaces := by
  obtain ⟨f, isChild, _, inside⟩ := argument.function
  exact Node.places_trans argument.inTree (Node.mem_places.mpr (Or.inr ⟨rfl, f, isChild, inside⟩))

theorem IsArgument.mem (argument : IsArgument tree call q p) : p ∈ tree.allPlaces := by
  obtain ⟨args, isChild, _, rfl | ⟨_, among, above⟩⟩ := argument.arguments
  · exact Node.child_mem_places argument.inTree rfl isChild
  · have args_in := Node.child_mem_places argument.inTree rfl isChild
    have inside := Node.child_mem_places args_in rfl among
    rw [← above] at inside
    exact inside

/-- The nodes around a call stand above the name that it is made through. -/
theorem IsArgument.above_name (argument : IsArgument tree call q p) :
    ∀ a ∈ call.node :: call.above, a ∈ q.above := by
  obtain ⟨f, _, _, inside⟩ := argument.function
  exact fun a passed => (Node.above_suffix inside).subset passed

/-- The literal of a call is no name of a module. -/
theorem IsArgument.unnamed (argument : IsArgument tree call q p) : namesModule p = false := by
  obtain ⟨args, _, _, rfl | ⟨kind, _, above⟩⟩ := argument.arguments
  · simp [namesModule, Place.parent?, argument.isCall]
  · simp [namesModule, Place.parent?, above, kind]

theorem isLiteral_kind {n : Node} (literal : isLiteral n) :
    n.kind ≠ .identifier ∧ n.kind ≠ .callExpression ∧ ¬ n.kind.isWord := by
  simp only [isLiteral, Bool.or_eq_true, beq_iff_eq] at literal
  rcases literal with kind | kind
  · rw [kind]
    decide
  · rw [kind]
    decide

/-- What stands for a node that is given to a call is given to a call that stands for the call. -/
theorem IsArgument.given_forth (argument : IsArgument tree call q p) {p' : Place}
    (p'_in : p' ∈ tree'.allPlaces) (paired : Paired ch source text p p') :
    ∃ call' ∈ tree'.allPlaces, StandsFor ch source text call.node call'.node ∧
      List.Forall₂ (StandsFor ch source text) call.above call'.above ∧
      ∃ args ∈ call'.node.children, args.plays .arguments ∧
        (p' = ⟨args, call'.node :: call'.above⟩ ∨ args.kind = .arguments ∧ p'.node ∈ args.children ∧
          p'.above = args :: call'.node :: call'.above) := by
  obtain ⟨n', up'⟩ := p'
  have plays {c c' : Node} (role : c'.role = c.role) (plays : c.plays .arguments) :
      c'.plays .arguments := by
    rw [Node.plays, role]
    exact plays
  have pairs := paired.above
  obtain ⟨args, _, args_plays, rfl | ⟨args_kind, _, p_above⟩⟩ := argument.arguments
  · obtain ⟨_, _, same⟩ := paired.node
    cases pairs with
    | cons call_stands pairs =>
        obtain ⟨call'_in, isChild⟩ := Node.parent_mem_allPlaces p'_in rfl
        exact ⟨_, call'_in, call_stands, pairs, _, isChild, plays same.role args_plays, Or.inl rfl⟩
  · rw [p_above] at pairs
    cases pairs with
    | cons args_stands pairs =>
        cases pairs with
        | cons call_stands pairs =>
            obtain ⟨args'_in, isChild⟩ := Node.parent_mem_allPlaces p'_in rfl
            obtain ⟨call'_in, args'_child⟩ := Node.parent_mem_allPlaces args'_in rfl
            obtain ⟨_, same⟩ := args_stands
            exact ⟨_, call'_in, call_stands, pairs, _, args'_child, plays same.role args_plays,
              Or.inr ⟨same.kind.trans args_kind, isChild, rfl⟩⟩

/-- The call is made through what stands for the name, if the name and the nodes above it stay put. -/
theorem IsArgument.forth (argument : IsArgument tree call q p) {p' : Place}
    (p'_in : p' ∈ tree'.allPlaces) (paired : Paired ch source text p p')
    (stays : ∀ a ∈ q.node :: q.above, ch.StaysPut a) :
    ∃ call' q', IsArgument tree' call' q' p' ∧ Paired ch source text q q' := by
  obtain ⟨call', call'_in, ⟨k, call_same⟩, pairs, arguments'⟩ := argument.given_forth p'_in paired
  obtain ⟨f, f_child, f_plays, q_in⟩ := argument.function
  have noModule : call.node.kind ≠ .program := by
    rw [argument.isCall]
    exact fun same => by cases same
  obtain ⟨f', f'_child, f_kept⟩ := call_same.children.forth noModule f_child
  obtain ⟨q', q'_in, q_paired⟩ :=
    f_kept.forth (by simp [IsBelow]) (.cons ⟨k, call_same⟩ pairs) q_in stays
  have f'_plays : f'.plays .function := by
    rw [Node.plays, kept_role f_kept]
    exact f_plays
  exact ⟨call', q', ⟨call'_in, call_same.kind.trans argument.isCall, ⟨f', f'_child, f'_plays, q'_in⟩,
    arguments'⟩, q_paired⟩

end

/-! ## What is replaced -/

section

variable {p q r : Place} {call : Place}

/-- What is swapped is a name with an edit of the rule for calls, or a call with one of the rule for
the accessor. -/
theorem swap_cases {rule : Rule} {k : Kind} {n : Node} {new : Text}
    (swap : (Changes.of s tree source rule).swap k n new) :
    (n.kind = .identifier ∧ ⟨n.start, n.stop, new⟩ ∈ callSiteEdits s tree source) ∨
      (n.kind = .callExpression ∧ ⟨n.start, n.stop, new⟩ ∈ accessorEdits s tree source) := by
  cases rule with
  | callSites => exact Or.inl ⟨swap.1.2.1, swap.2⟩
  | authAccessor => exact Or.inr swap
  | _ => exact swap.elim

/-- A rule acts on replaceable references only. -/
theorem actsOn_replaceable (wf : tree.WellFormed) {kind : BindingKind} (visited : r ∈ callPlaces tree)
    (acts : actsOn s source r kind) :
    ∃ b ∈ s.bindings.list, b.kind = kind ∧ IsReplaceable s.config source tree b.kind b.name r := by
  obtain ⟨inTree, outside, plain⟩ := (mem_callPlaces wf).mp visited
  have parts : s.bindings.isKind kind (r.node.name source) ∧ kind.replaces s.config source r ∧
      r.isShadowed source = false := by
    cases kind <;>
      simp_all [actsOn, isClientCall, isAccessorCall, BindingKind.replaces]
  obtain ⟨isKind, form, unshadowed⟩ := parts
  obtain ⟨b, found, same⟩ := (Option.any_eq_true _ _).mp isKind
  have named : b.name = r.node.name source := by
    have holds := List.find?_some found
    exact eq_of_beq holds
  have kind_same : b.kind = kind := eq_of_beq same
  refine ⟨b, List.mem_of_find?_eq_some found, kind_same, ?_, kind_same ▸ form⟩
  exact ⟨inTree, outside, Or.inl plain, named.symm, unshadowed⟩

/-- A name with an edit in its stead is a replaceable reference. -/
theorem clientEdit_replaceable (wf : tree.WellFormed) (inTree : r ∈ tree.allPlaces)
    (plain : r.node.kind = .identifier) {new : Text}
    (made : ⟨r.node.start, r.node.stop, new⟩ ∈ callSiteEdits s tree source) :
    ∃ b ∈ s.bindings.list, b.kind = .client ∧ IsReplaceable s.config source tree b.kind b.name r := by
  obtain ⟨_, visited, acts⟩ := (clientReplaced_iff wf inTree plain).mp ⟨new, made⟩
  exact actsOn_replaceable wf visited acts

/-- An edit of the rule for the accessor takes the bytes of the call around a replaceable reference. -/
theorem accessorEdit_replaceable (wf : tree.WellFormed) {e : Edit}
    (made : e ∈ accessorEdits s tree source) :
    ∃ r call up, r.above = call :: up ∧ call.kind = .callExpression ∧ e.start = call.start ∧
      e.stop = call.stop ∧ ∃ b ∈ s.bindings.list, b.kind = .accessor ∧
        IsReplaceable s.config source tree b.kind b.name r := by
  unfold accessorEdits at made
  split at made
  · obtain ⟨r, visited, edit⟩ := List.mem_filterMap.mp made
    split at edit
    · rename_i acts
      have bare : isBareCall r := by
        simp only [isAccessorCall, Bool.and_eq_true] at acts
        exact acts.1.2
      obtain ⟨call, up, _, above, isCall, _⟩ := bareCall_cases bare
      simp only [Place.parent?, above, List.head?_cons, Option.map_some, Option.some.injEq] at edit
      subst edit
      exact ⟨r, call, up, above, isCall, rfl, rfl, actsOn_replaceable wf visited acts⟩
    · cases edit
  · cases made

/-- A declaration comes behind a part of the block that is no literal. -/
theorem declarationEdit?_anchor {block : Node} {name : String} {e : Edit}
    (made : declarationEdit? s source block name = some e) :
    e.start = e.stop ∧ ∃ anchor ∈ block.children, ¬ isLiteral anchor ∧ e.start = anchor.stop := by
  obtain ⟨anchor, found, start, stop⟩ := declarationEdit?_start made
  obtain ⟨brace, inside, children, opens, named, head⟩ := headAnchor?_cases found
  refine ⟨start.trans stop.symm, anchor, ?_, ?_, start⟩
  · rcases head with ⟨rfl, _⟩ | ⟨front, back, split, _⟩
    · exact children ▸ List.mem_cons_self
    · exact namedChild_mem (split ▸ List.mem_append_right _ List.mem_cons_self)
  · rcases head with ⟨rfl, _⟩ | ⟨_, _, _, directive, _⟩
    · simp [isLiteral, opens]
    · simp [isLiteral, (isDirective_cases directive).1]

end

end ClientMigration.Codemod
