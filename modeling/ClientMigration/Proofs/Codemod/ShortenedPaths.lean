/-
# Proofs.Codemod.ShortenedPaths -- which literals lose their versions, and what stays

The rule for versions makes its edits in one pass over the text. `Respelled`
says what such a pass gives: the text in pieces, one behind the other, some of
them literals that have lost their versions, the others as they were.

The walk of the rule does not go into a literal. A template may hold code, and
the literals of that code are not come to. So of the literals outside imports,
attributes and the module names of exports the rule shortens exactly those that
stand in no other literal (`pathEdits_respell`). A request made inside a template
keeps the version that its client adds again (`nestedPath_kept`).
-/
import ClientMigration.Proofs.Codemod.ClearEdits

namespace ClientMigration.Codemod

set_option autoImplicit false

open Script

variable {config : Config} {source : Text} {tree : Node} {p : Place}

/-! ## Literals with versions -/

/-- A literal that spells a path with versions in front, where the rule takes literals for paths:
outside imports and attributes, and not as the name of a module that an export passes on. -/
structure IsVersioned (source : Text) (tree : Node) (p : Place) : Prop where
  inTree : p ∈ tree.allPlaces
  literal : isLiteral p.node
  outside : ∀ a ∈ p.above, a.kind ≠ .importStatement ∧ a.kind ≠ .markupAttribute
  unnamed : ¬ namesModule p
  versioned : ∃ quote path short, p.node.text source = quote :: path ++ [quote] ∧
    stripVersions? path = some short

theorem literalEdit?_isSome {n : Node} : (literalEdit? source n).isSome ↔
    ∃ quote path short, n.text source = quote :: path ++ [quote] ∧ stripVersions? path = some short := by
  rw [Option.isSome_iff_exists]
  simp only [literalEdit?_iff]
  constructor
  · rintro ⟨_, quote, path, short, whole, stripped, _⟩
    exact ⟨quote, path, short, whole, stripped⟩
  · rintro ⟨quote, path, short, whole, stripped⟩
    exact ⟨_, quote, path, short, whole, stripped, rfl⟩

theorem entersForPaths_iff (a : Node) :
    entersForPaths a ↔ (a.kind ≠ .importStatement ∧ a.kind ≠ .markupAttribute) ∧ ¬ isLiteral a := by
  simp only [entersForPaths, Bool.not_eq_true', Bool.or_eq_false_iff, beq_eq_false_iff_ne,
    Bool.not_eq_true, ne_eq]

/-- The literals that the rule shortens, in the order in which it comes to them. -/
def shortenedPlaces (source : Text) (tree : Node) : List Place :=
  (tree.places entersForPaths []).filter fun p =>
    isLiteral p.node && !namesModule p && (literalEdit? source p.node).isSome

theorem mem_shortenedPlaces : p ∈ shortenedPlaces source tree ↔
    IsVersioned source tree p ∧ ∀ a ∈ p.above, ¬ isLiteral a := by
  unfold shortenedPlaces
  rw [List.mem_filter, Node.mem_places_iff_enters]
  simp only [Bool.and_eq_true, Bool.not_eq_true', entersForPaths_iff, literalEdit?_isSome]
  constructor
  · rintro ⟨⟨inTree, entered⟩, ⟨literal, unnamed⟩, versioned⟩
    exact ⟨⟨inTree, literal, fun a passed => (entered a passed).1, by simp [unnamed], versioned⟩,
      fun a passed => (entered a passed).2⟩
  · rintro ⟨form, alone⟩
    exact ⟨⟨form.inTree, fun a passed => ⟨form.outside a passed, alone a passed⟩⟩,
      ⟨form.literal, by simpa using form.unnamed⟩, form.versioned⟩

theorem pathEdits_eq (scope : inPathScope config source tree) :
    pathEdits config tree source =
      (shortenedPlaces source tree).filterMap fun p => literalEdit? source p.node := by
  rw [pathEdits, if_pos scope, shortenedPlaces, List.filterMap_filter]
  refine List.filterMap_congr fun p _ => ?_
  by_cases form : (isLiteral p.node && !namesModule p) = true
  · cases edit : literalEdit? source p.node <;> simp [form]
  · simp [form]

theorem shortenedPlaces_ordered (wf : tree.WellFormed) :
    (shortenedPlaces source tree).Pairwise fun p q => p.node.stop ≤ q.node.start := by
  have ordered : (shortenedPlaces source tree).Pairwise fun p q =>
    isLiteral p.node → p.node.stop ≤ q.node.start := (literals_ordered wf).sublist List.filter_sublist
  exact ordered.imp_of_mem fun listed _ behind => behind (mem_shortenedPlaces.mp listed).1.literal

/-! ## Texts with literals shortened -/

/-- What a text becomes from an offset on: at each of the places there was a literal, and it has lost
the versions of its path; what stands in front of it and between them is as it was. -/
inductive Respelled : Nat → List Place → Text → Text → Prop
  | rest {n : Nat} (rest : Text) : Respelled n [] rest rest
  | literal {n : Nat} {p : Place} {ps : List Place} {kept path short rest out : Text} {quote : Char}
      (starts : p.node.start = n + kept.bytes)
      (stops : p.node.stop = p.node.start + Text.bytes (quote :: path ++ [quote]))
      (stripped : stripVersions? path = some short) (further : Respelled p.node.stop ps rest out) :
      Respelled n (p :: ps) (kept ++ (quote :: path ++ [quote] ++ rest))
        (kept ++ (quote :: short ++ [quote]) ++ out)

/-- A version has at least seven characters, and at most a slash comes in for it. -/
theorem stripVersions?_shorter {path short : Text} (stripped : stripVersions? path = some short) :
    short.length + 6 ≤ path.length := by
  obtain ⟨versions, tail, shortened⟩ := stripVersions?_some stripped
  obtain ⟨v, vs, rfl⟩ := List.exists_cons_of_ne_nil shortened.nonempty
  obtain ⟨digits, some, _, rfl⟩ := shortened.each v List.mem_cons_self
  have long := List.length_pos_of_ne_nil some
  have front : "/api/v".toList.length = 6 := rfl
  have whole := congrArg List.length shortened.whole
  simp only [List.flatten_cons, List.length_append, front] at whole
  rcases shortened.front.2 with rfl | rfl
  · omega
  · rw [List.length_cons]
    omega

/-- Each literal that is shortened makes the text shorter. -/
theorem Respelled.shorter {n : Nat} {ps : List Place} {t out : Text} (respelled : Respelled n ps t out) :
    out.length + 6 * ps.length ≤ t.length := by
  induction respelled with
  | rest rest => simp
  | literal starts stops stripped further shorter =>
      have path := stripVersions?_shorter stripped
      simp only [List.length_append, List.length_cons, List.length_nil]
      omega

/-! ## The pass of the rule -/

/-- A pass over literals that come one behind the other respells each of them. -/
theorem applyFrom_respells (spells : Spells source tree) : ∀ {ps : List Place} (front back : Text),
    source = front ++ back → (∀ p ∈ ps, p ∈ tree.allPlaces ∧ (literalEdit? source p.node).isSome) →
    (ps.Pairwise fun p q => p.node.stop ≤ q.node.start) → (∀ p ∈ ps, front.bytes ≤ p.node.start) →
    ∃ made, Edit.applyFrom source front.bytes (ps.filterMap fun p => literalEdit? source p.node) =
      .ok made ∧ Respelled front.bytes ps back made
  | [], front, back, whole, _, _, _ => by
      refine ⟨back, ?_, .rest back⟩
      rw [whole, List.filterMap_nil, Edit.applyFrom, Text.dropBytes?_append]
  | p :: ps, front, back, whole, literals, ordered, behind => by
      obtain ⟨p_in, loses⟩ := literals p List.mem_cons_self
      obtain ⟨e, edit⟩ := Option.isSome_iff_exists.mp loses
      obtain ⟨quote, path, short, text, stripped, rfl⟩ := literalEdit?_iff.mp edit
      obtain ⟨front', rest, whole', starts, stops⟩ := spells.node_split ⟨p.above, p_in⟩
      have turn := behind p List.mem_cons_self
      obtain ⟨kept, rfl, rfl⟩ := Text.front_of_le (whole.symm.trans whole') (by omega)
      obtain ⟨next, ordered'⟩ := List.pairwise_cons.mp ordered
      obtain ⟨made, passed, respelled⟩ := applyFrom_respells spells (front ++ kept ++ p.node.text source)
        rest (whole'.trans (List.append_assoc _ _ _).symm)
        (fun q later => literals q (List.mem_cons_of_mem p later)) ordered' fun q later => by
          rw [stops]
          exact next q later
      rw [stops] at passed respelled
      refine ⟨kept ++ (quote :: short ++ [quote]) ++ made, ?_, ?_⟩
      · have slice : source.slice? front.bytes p.node.start = some kept := by
          rw [whole', ← starts, Text.bytes_append]
          exact Text.slice?_append front kept _
        have edits : ((p :: ps).filterMap fun p => literalEdit? source p.node) =
            ⟨p.node.start, p.node.stop, quote :: short ++ [quote]⟩ ::
              ps.filterMap fun p => literalEdit? source p.node := List.filterMap_cons_some edit
        rw [edits, Edit.applyFrom, if_neg (Nat.not_lt.mpr turn), slice]
        simp only [passed, Except.map]
      · rw [text]
        refine .literal ?_ ?_ stripped respelled
        · rw [← starts, Text.bytes_append]
        · rw [← text, ← starts, ← stops, Text.bytes_append]

/-- The rule's edits come in the order in which they are made. -/
theorem pathEdits_inOrder (wf : tree.WellFormed) (scope : inPathScope config source tree) :
    Edit.inOrder (pathEdits config tree source) = pathEdits config tree source := by
  have sort := Edit.inOrder_stableSort (pathEdits config tree source)
  refine eq_of_ties sort.sorted ?_ sort.ties
  rw [pathEdits_eq scope]
  refine List.pairwise_filterMap.mpr ((shortenedPlaces_ordered wf).imp_of_mem fun {p q} at_p at_q le => ?_)
  intro e here f further
  rw [literalEdit?_bytes here, literalEdit?_bytes further]
  have p_le := (wf.place (mem_shortenedPlaces.mp at_p).1.inTree).2.1.le
  have q_le := (wf.place (mem_shortenedPlaces.mp at_q).1.inTree).2.1.le
  refine Edit.place_le.mpr ?_
  show p.node.start < q.node.start ∨ p.node.start = q.node.start ∧ p.node.stop ≤ q.node.stop
  omega

/-- In a file in scope the rule's edits can be made, and they shorten the literals that it comes to. -/
theorem pathEdits_made (spells : Spells source tree) (scope : inPathScope config source tree) :
    ∃ out, Edit.apply source (pathEdits config tree source) = .ok out ∧
      Respelled 0 (shortenedPlaces source tree) source out := by
  have literals : ∀ p ∈ shortenedPlaces source tree,
      p ∈ tree.allPlaces ∧ (literalEdit? source p.node).isSome := fun p listed =>
    have form := (mem_shortenedPlaces.mp listed).1
    ⟨form.inTree, literalEdit?_isSome.mpr form.versioned⟩
  obtain ⟨out, made, respelled⟩ := applyFrom_respells spells [] source rfl literals
    (shortenedPlaces_ordered spells.wellFormed) fun _ _ => Nat.zero_le _
  refine ⟨out, ?_, respelled⟩
  rw [Edit.apply, pathEdits_inOrder spells.wellFormed scope, pathEdits_eq scope]
  exact made

/-- A file in scope that the rule leaves as it is has no edits. -/
theorem pathEdits_nil (spells : Spells source tree) (scope : inPathScope config source tree)
    (same : Edit.apply source (pathEdits config tree source) = .ok source) :
    pathEdits config tree source = [] := by
  obtain ⟨out, made, respelled⟩ := pathEdits_made spells scope
  rw [same] at made
  cases made
  have shorter := respelled.shorter
  have none : shortenedPlaces source tree = [] := List.eq_nil_of_length_eq_zero (by omega)
  rw [pathEdits_eq scope, none]
  rfl

/-- A migrated module that makes one request in a statement and one in a template. -/
def nestedPath : Text :=
  ("import \x7b createPresetApiClient as c \x7d from '@/lib/api';\n" ++
    "c('auth').get('/api/v1/a');\n" ++
    "`$\x7bc('auth').get('/api/v1/b')\x7d`;\n").toList

/-- Whether the module reads as a tree of its text in scope, with a literal that is shortened and one
with versions that stands in a literal and is not. -/
def nestsPath : Bool :=
  match Script.parse (hasMarkup ⟨"a.ts"⟩) nestedPath with
  | .ok tree => decide (Spells nestedPath tree ∧ inPathScope {} nestedPath tree ∧
      (shortenedPlaces nestedPath tree).length = 1 ∧
      ∃ p ∈ tree.allPlaces, isLiteral p.node ∧
        (∀ a ∈ p.above, a.kind ≠ .importStatement ∧ a.kind ≠ .markupAttribute) ∧
        ¬ namesModule p ∧ (literalEdit? nestedPath p.node).isSome ∧ (∃ a ∈ p.above, isLiteral a) ∧
        ∀ e ∈ pathEdits {} tree nestedPath, e.start ≠ p.node.start)
  | .error _ => false

theorem nestedPath_reads : ∃ tree, Script.parse (hasMarkup ⟨"a.ts"⟩) nestedPath = .ok tree ∧
    Spells nestedPath tree ∧ inPathScope {} nestedPath tree ∧
    (shortenedPlaces nestedPath tree).length = 1 ∧
    ∃ p, IsVersioned nestedPath tree p ∧ (∃ a ∈ p.above, isLiteral a) ∧
      ∀ e ∈ pathEdits {} tree nestedPath, e.start ≠ p.node.start := by
  have checked : nestsPath = true := by decide +kernel
  unfold nestsPath at checked
  split at checked
  · rename_i tree reads
    obtain ⟨spells, scope, one, p, inTree, literal, outside, unnamed, loses, nested, noEdit⟩ :=
      of_decide_eq_true checked
    exact ⟨tree, reads, spells, scope, one, p,
      ⟨inTree, literal, outside, unnamed, literalEdit?_isSome.mp loses⟩, nested, noEdit⟩
  · cases checked

end ClientMigration.Codemod
