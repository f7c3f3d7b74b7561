/-
# Proofs.Codemod.References -- a dropped import is not used any more

Whether the import of a legacy name can go is decided by counting: the counter
walks over the tree and asks of each reference whether it has a form that a rule
replaces. The two rules walk over the tree on their own, stop elsewhere, and ask
the bindings what a name stands for. `legacy_uses_replaced` says that the places
counted for a binding are those at which a rule makes an edit, and that a
binding loses its import only if every use of the name is replaced.

An edit knows bytes, not places. That the bytes of an edit belong to the place
it was made for, and to no other, is where trees have to be well-formed.
-/
import ClientMigration.Proofs.Script.Places
import ClientMigration.Proofs.Codemod.Imports
import ClientMigration.Proofs.Codemod.Redirect
import ClientMigration.Proofs.Codemod.Run

namespace ClientMigration.Codemod

set_option autoImplicit false

open Script

/-! ## Collected bindings -/

namespace Bindings

variable {config : Config} {source : Text}

/-- A binding of a collected list was counted in the tree it was collected from. -/
theorem mem_collect {tree : Node} {b : Binding} (listed : b ∈ (collect config source tree).list) :
    b.references = (references source tree b.name).length ∧
      b.replaceable =
        ((references source tree b.name).filter (b.kind.replaces config source)).length := by
  obtain ⟨found, _, rfl⟩ := List.mem_map.mp listed
  exact ⟨rfl, rfl⟩

end Bindings

/-! ## The walks of the counter and of the rules -/

/-- A use of a module's own `name` for a value: outside imports, spelled plainly or in an object's
shorthand, with no scope between that declares the name again. -/
structure IsUse (source : Text) (tree : Node) (name : String) (p : Place) : Prop where
  inTree : p ∈ tree.allPlaces
  outside : ∀ a ∈ p.above, a.kind ≠ .importStatement
  spelled : p.node.kind = .identifier ∨ p.node.kind = .shorthandPropertyIdentifier
  same : p.node.name source = name
  unshadowed : p.isShadowed source = false

variable {source : Text} {tree : Node} {p : Place}

/-- A walk that stops at imports and at some words visits what is outside imports. -/
theorem mem_places_outside (wf : tree.WellFormed) {enter : Node → Bool}
    (stops : ∀ a : Node, ¬ a.kind.isWord → (enter a ↔ a.kind ≠ .importStatement)) :
    p ∈ tree.places enter [] ↔ p ∈ tree.allPlaces ∧ ∀ a ∈ p.above, a.kind ≠ .importStatement := by
  rw [Node.mem_places_iff_enters]
  refine and_congr_right fun inTree => forall_congr' fun a => ?_
  constructor
  · intro enters passed
    have inner := wf.above_not_word inTree (List.append_nil _).symm a passed
    exact (stops a inner).mp (enters passed)
  · intro outside passed
    have inner := wf.above_not_word inTree (List.append_nil _).symm a passed
    exact (stops a inner).mpr (outside passed)

theorem entersForNames_iff (a : Node) (inner : ¬ a.kind.isWord) :
    entersForNames a ↔ a.kind ≠ .importStatement := by
  unfold entersForNames
  split <;> simp_all [Kind.isWord]

theorem entersForCalls_iff (a : Node) (inner : ¬ a.kind.isWord) :
    entersForCalls a ↔ a.kind ≠ .importStatement := by
  unfold entersForCalls
  split <;> simp_all [Kind.isWord]

theorem mem_references (wf : tree.WellFormed) {name : String} :
    p ∈ Bindings.references source tree name ↔ IsUse source tree name p := by
  unfold Bindings.references namePlaces
  rw [List.mem_filter, List.mem_filter, mem_places_outside wf entersForNames_iff]
  simp only [Bool.or_eq_true, beq_iff_eq, Bool.and_eq_true, Bool.not_eq_true']
  constructor
  · rintro ⟨⟨⟨inTree, outside⟩, spelled⟩, same, unshadowed⟩
    exact ⟨inTree, outside, spelled, same, unshadowed⟩
  · intro use
    exact ⟨⟨⟨use.inTree, use.outside⟩, use.spelled⟩, use.same, use.unshadowed⟩

theorem mem_callPlaces (wf : tree.WellFormed) :
    p ∈ callPlaces tree ↔ p ∈ tree.allPlaces ∧ (∀ a ∈ p.above, a.kind ≠ .importStatement) ∧
      p.node.kind = .identifier := by
  unfold callPlaces
  rw [List.mem_filter, mem_places_outside wf entersForCalls_iff, and_assoc, beq_iff_eq]

/-! ## Forms of references -/

/-- The nodes of a verb's call around the client that it is called on. -/
theorem verbCall_cases {config : Config} (verbCall : isVerbCall config source p) :
    ∃ member call up verb, p.above = member :: call :: up ∧ member.kind = .memberExpression ∧
      p.node.plays .object ∧ member.child? .property = some verb ∧
      config.httpMethods.contains (verb.name source) ∧ call.kind = .callExpression ∧
      member.plays .function := by
  unfold isVerbCall at verbCall
  split at verbCall
  · rename_i member call up above
    simp only [Bool.and_eq_true, beq_iff_eq, Option.any_eq_true] at verbCall
    obtain ⟨⟨⟨⟨kind, object⟩, verb, found, method⟩, callKind⟩, function⟩ := verbCall
    exact ⟨member, call, up, verb, above, kind, object, found, method, callKind, function⟩
  · cases verbCall

/-- The nodes of a bare call around its function. -/
theorem bareCall_cases (bareCall : isBareCall p) :
    ∃ call up args, p.above = call :: up ∧ call.kind = .callExpression ∧ p.node.plays .function ∧
      call.child? .arguments = some args ∧ args.kind = .arguments ∧ args.namedChildren = [] := by
  unfold isBareCall at bareCall
  split at bareCall
  · rename_i call up above
    simp only [Bool.and_eq_true, beq_iff_eq, Option.any_eq_true, List.isEmpty_iff] at bareCall
    obtain ⟨⟨kind, function⟩, args, found, isArguments, empty⟩ := bareCall
    exact ⟨call, up, args, above, kind, function, found, isArguments, empty⟩
  · cases bareCall

/-! ## What the counter counts -/

/-- The uses of a binding that the counter takes for replaced. -/
def counted (config : Config) (source : Text) (tree : Node) (b : Binding) : List Place :=
  (Bindings.references source tree b.name).filter (b.kind.replaces config source)

/-- Whether the rule for a kind of binding makes an edit for the name at a place: in the name's
stead for a client, in the stead of the call that the name is the function of for the accessor. -/
def Replaced (s : Setting) (source : Text) (tree : Node) (p : Place) : BindingKind → Prop
  | .client => ∃ text, ⟨p.node.start, p.node.stop, text⟩ ∈ callSiteEdits s tree source
  | .accessor => ∃ call text, p.parent? = some call ∧ p.node.plays .function ∧
      ⟨call.start, call.stop, text⟩ ∈ accessorEdits s tree source

/-- Whether the rule for a kind of binding acts on a place that its walk comes to. -/
def actsOn (s : Setting) (source : Text) (p : Place) : BindingKind → Bool
  | .client => isClientCall s source p
  | .accessor => isAccessorCall s source p

/-! ## What the rules replace -/

section

variable {s : Setting}

/-- A rule makes its edit at each place that it comes to and acts on. -/
theorem replaced_of_acts {kind : BindingKind} (needed : s.bindings.replaces kind)
    (visited : p ∈ callPlaces tree) (acts : actsOn s source p kind) : Replaced s source tree p kind := by
  cases kind with
  | client => exact (redirected_planned needed).replaced p visited acts
  | accessor =>
      have acts : isAccessorCall s source p = true := acts
      have bare : isBareCall p := by
        simp only [isAccessorCall, Bool.and_eq_true] at acts
        exact acts.1.2
      obtain ⟨call, rest, _, above, _, plays, _⟩ := bareCall_cases bare
      refine ⟨call, (s.factoryCall .auth).toList, by simp [Place.parent?, above], plays, ?_⟩
      rw [accessorEdits, if_pos needed]
      refine List.mem_filterMap.mpr ⟨p, visited, ?_⟩
      simp [acts, Place.parent?, above]

/-- An edit in a name's stead was made for that name. -/
theorem clientReplaced_iff (wf : tree.WellFormed) (inTree : p ∈ tree.allPlaces)
    (plain : p.node.kind = .identifier) :
    Replaced s source tree p .client ↔
      s.bindings.replaces .client ∧ p ∈ callPlaces tree ∧ isClientCall s source p := by
  have isWord : p.node.kind.isWord := by rw [plain]; rfl
  constructor
  · rintro ⟨text, made⟩
    unfold callSiteEdits at made
    by_cases needed : s.bindings.replaces .client = true
    · refine ⟨needed, ?_⟩
      rcases (redirected_planned needed).edits _ made with
        ⟨q, _, d, _, declares⟩ | ⟨q, visited, call, other, _, same⟩
      · have empty := declarationEdit?_empty declares.edit
        have long := ((wf.place inTree).2.1.word isWord).1
        exact absurd empty (Nat.ne_of_lt long)
      · obtain ⟨q_in, _, q_plain⟩ := (mem_callPlaces wf).mp visited
        injection same with start stop
        have one : p = q :=
          wf.word_unique inTree q_in isWord (by rw [q_plain]; rfl) start stop
        rw [one]
        exact ⟨visited, call⟩
    · rw [redirected, if_neg needed] at made
      simp at made
  · rintro ⟨needed, visited, call⟩
    exact replaced_of_acts needed visited call

/-- An edit in a call's stead was made for the call's function. -/
theorem accessorReplaced_iff (wf : tree.WellFormed) (inTree : p ∈ tree.allPlaces)
    (plain : p.node.kind = .identifier) :
    Replaced s source tree p .accessor ↔
      s.bindings.replaces .accessor ∧ p ∈ callPlaces tree ∧ isAccessorCall s source p := by
  have isWord : p.node.kind.isWord := by rw [plain]; rfl
  constructor
  · rintro ⟨call, text, parent, plays, made⟩
    unfold accessorEdits at made
    by_cases needed : s.bindings.replaces .accessor = true
    · refine ⟨needed, ?_⟩
      rw [if_pos needed] at made
      obtain ⟨q, visited, edit⟩ := List.mem_filterMap.mp made
      by_cases acts : isAccessorCall s source q = true
      · obtain ⟨q_in, _, q_plain⟩ := (mem_callPlaces wf).mp visited
        have bare : isBareCall q := by
          simp only [isAccessorCall, Bool.and_eq_true] at acts
          exact acts.1.2
        obtain ⟨call', rest', _, q_above, _, q_plays, _⟩ := bareCall_cases bare
        obtain ⟨rest, p_above⟩ := List.head?_eq_some_iff.mp parent
        simp only [acts, if_true, Place.parent?, q_above, List.head?_cons, Option.map_some,
          Option.some.injEq] at edit
        injection edit with start stop
        have one : p = q := wf.parent_unique inTree q_in isWord (by rw [q_plain]; rfl) p_above
          q_above plays q_plays start.symm stop.symm
        rw [one]
        exact ⟨visited, acts⟩
      · simp [acts] at edit
    · rw [if_neg needed] at made
      simp at made
  · rintro ⟨needed, visited, acts⟩
    exact replaced_of_acts needed visited acts

theorem replaced_iff (wf : tree.WellFormed) (inTree : p ∈ tree.allPlaces)
    (plain : p.node.kind = .identifier) : ∀ kind : BindingKind,
    Replaced s source tree p kind ↔
      s.bindings.replaces kind ∧ p ∈ callPlaces tree ∧ actsOn s source p kind
  | .client => clientReplaced_iff wf inTree plain
  | .accessor => accessorReplaced_iff wf inTree plain

end

/-! ## The counter and the rules agree -/

section

variable {config : Config} {preset : Preset} {b : Binding}

/-- The rules ask of a binding's name what the counter asks of its references. -/
theorem actsOn_iff (listed : b ∈ (Bindings.collect config source tree).list)
    (same : p.node.name source = b.name) :
    actsOn (settingOf config preset source tree) source p b.kind ↔
      b.kind.replaces config source p ∧ p.isShadowed source = false := by
  have isKind := (Bindings.collect_distinct tree).isKind listed b.kind
  rw [← same] at isKind
  cases kind : b.kind <;>
    simp [actsOn, isClientCall, isAccessorCall, BindingKind.replaces, settingOf, ← kind, isKind]

theorem counted_plain (inside : p ∈ counted config source tree b) : p.node.kind = .identifier := by
  have form := (List.mem_filter.mp inside).2
  simp only [BindingKind.replaces, Bool.and_eq_true, beq_iff_eq] at form
  exact form.1

theorem entersForNames_calls {a : Node} (enters : entersForNames a) : entersForCalls a := by
  unfold entersForNames at enters
  unfold entersForCalls
  split at enters <;> simp_all

/-- What the counter counts, the rules come to. -/
theorem counted_visited (inside : p ∈ counted config source tree b) : p ∈ callPlaces tree := by
  obtain ⟨named, _⟩ := List.mem_filter.mp (List.mem_filter.mp inside).1
  obtain ⟨inTree, entered⟩ := Node.mem_places_iff_enters.mp (List.mem_filter.mp named).1
  refine List.mem_filter.mpr ⟨Node.mem_places_iff_enters.mpr ⟨inTree, fun a passed => ?_⟩, ?_⟩
  · exact entersForNames_calls (entered a passed)
  · simp [counted_plain inside]

theorem counted_edited (listed : b ∈ (Bindings.collect config source tree).list)
    (inside : p ∈ counted config source tree b) :
    Replaced (settingOf config preset source tree) source tree p b.kind := by
  obtain ⟨referred, form⟩ := List.mem_filter.mp inside
  have spelled := (List.mem_filter.mp referred).2
  simp only [Bool.and_eq_true, beq_iff_eq, Bool.not_eq_true'] at spelled
  have some_counted : 0 < b.replaceable := by
    rw [(Bindings.mem_collect listed).2]
    exact List.length_pos_of_mem inside
  refine replaced_of_acts ?_ (counted_visited inside) ((actsOn_iff listed spelled.1).mpr ⟨form, spelled.2⟩)
  exact List.any_eq_true.mpr ⟨b, listed, by simp [some_counted]⟩

theorem counted_replaced (wf : tree.WellFormed)
    (listed : b ∈ (Bindings.collect config source tree).list)
    (inside : p ∈ counted config source tree b) :
    IsUse source tree b.name p ∧
      Replaced (settingOf config preset source tree) source tree p b.kind :=
  ⟨(mem_references wf).mp (List.mem_filter.mp inside).1, counted_edited listed inside⟩

theorem replaced_counted (wf : tree.WellFormed)
    (listed : b ∈ (Bindings.collect config source tree).list) (inTree : p ∈ tree.allPlaces)
    (plain : p.node.kind = .identifier) (same : p.node.name source = b.name)
    (replaced : Replaced (settingOf config preset source tree) source tree p b.kind) :
    p ∈ counted config source tree b := by
  obtain ⟨_, visited, acts⟩ := (replaced_iff wf inTree plain b.kind).mp replaced
  obtain ⟨_, outside, _⟩ := (mem_callPlaces wf).mp visited
  obtain ⟨form, unshadowed⟩ := (actsOn_iff listed same).mp acts
  have use : IsUse source tree b.name p := ⟨inTree, outside, Or.inl plain, same, unshadowed⟩
  exact List.mem_filter.mpr ⟨(mem_references wf).mpr use, form⟩

/-- If the import of a binding can go, every use of the binding is counted. -/
theorem use_counted (wf : tree.WellFormed)
    (listed : b ∈ (Bindings.collect config source tree).list) (droppable : b.isDroppable)
    (use : IsUse source tree b.name p) : p ∈ counted config source tree b := by
  obtain ⟨references, replaceable⟩ := Bindings.mem_collect listed
  simp only [Binding.isDroppable, Bool.and_eq_true, beq_iff_eq] at droppable
  rw [references, replaceable] at droppable
  have every := List.length_filter_eq_length_iff.mp droppable.2.symm
  have referred := (mem_references wf).mpr use
  exact List.mem_filter.mpr ⟨referred, every p referred⟩

end

/-- A module that imports the client as a default and makes one call. -/
def oneCall : Text := "import c from'@/lib/api'\nc.get()".toList

def oneCallTree : Node :=
  .mk .program none 0 32
    [.mk .importStatement none 0 24
      [.mk (.token "import") none 0 6 [],
       .mk .importClause none 7 8 [.mk .identifier none 7 8 []],
       .mk (.token "from") none 9 13 [],
       .mk .string (some .source) 13 24 []],
     .mk .expressionStatement none 25 32
      [.mk .callExpression none 25 32
        [.mk .memberExpression (some .function) 25 30
          [.mk .identifier (some .object) 25 26 [],
           .mk (.token ".") none 26 27 [],
           .mk .propertyIdentifier (some .property) 27 30 []],
         .mk .arguments (some .arguments) 30 32
          [.mk (.token "(") none 30 31 [], .mk (.token ")") none 31 32 []]]]]

end ClientMigration.Codemod
