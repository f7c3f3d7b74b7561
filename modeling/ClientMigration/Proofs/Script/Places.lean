/-
# Proofs.Script.Places -- where the nodes of a tree stand

Every walk of the rules and of the counter is `places` with a test of where to
go down. A walk visits exactly the places whose ancestors all pass its test
(`mem_places_iff_enters`), so that walks with different tests are compared on
the list of all places.

In a well-formed tree a place lies inside each node above it, and two places are
the same, lie apart, or one of them is above the other (`places_cases`); a walk
comes to them in the order of the text (`places_ordered`). A word has characters
and nothing below it, so the bytes of a word belong to one place (`word_unique`).
This is what lets an edit, which knows bytes only, speak about a place.
-/
import ClientMigration.Script.Node

namespace ClientMigration.Script

set_option autoImplicit false

namespace Node

/-! ## Induction over trees -/

mutual

theorem byChildren {P : Node → Prop} (step : ∀ n : Node, (∀ c ∈ n.children, P c) → P n) :
    ∀ n : Node, P n
  | .mk k r a b cs => step (.mk k r a b cs) (byChildrenIn step cs)

theorem byChildrenIn {P : Node → Prop} (step : ∀ n : Node, (∀ c ∈ n.children, P c) → P n) :
    ∀ ns : List Node, ∀ c ∈ ns, P c
  | [] => fun _ inside => absurd inside List.not_mem_nil
  | n :: ns => List.forall_mem_cons.mpr ⟨byChildren step n, byChildrenIn step ns⟩

end

/-! ## Membership in a walk -/

variable {enter : Node → Bool}

theorem mem_placesIn {above ns : List Node} {p : Place} :
    p ∈ placesIn enter above ns ↔ ∃ n ∈ ns, p ∈ n.places enter above := by
  induction ns with
  | nil => simp [placesIn]
  | cons n ns rest => simp [placesIn, rest]

theorem mem_places {above : List Node} {n : Node} {p : Place} :
    p ∈ n.places enter above ↔
      p = ⟨n, above⟩ ∨ enter n ∧ ∃ c ∈ n.children, p ∈ c.places enter (n :: above) := by
  cases n with
  | mk k r a b cs =>
      rw [places, List.mem_cons]
      refine or_congr Iff.rfl ?_
      by_cases down : enter (.mk k r a b cs) = true
      · simp only [down, if_true, true_and]
        exact mem_placesIn
      · simp [down]

theorem places_entered (above : List Node) {n : Node} (enters : enter n) :
    n.places enter above = ⟨n, above⟩ :: placesIn enter (n :: above) n.children := by
  cases n
  rw [places, if_pos enters]
  rfl

theorem places_passed (above : List Node) {n : Node} (passes : ¬ enter n) :
    n.places enter above = [⟨n, above⟩] := by
  cases n
  rw [places, if_neg passes]

theorem places_eq (above : List Node) (n : Node) :
    n.places (fun _ => true) above = ⟨n, above⟩ :: placesIn (fun _ => true) (n :: above) n.children :=
  places_entered above rfl

theorem placesIn_eq_flatMap (above ns : List Node) :
    placesIn enter above ns = ns.flatMap fun n => n.places enter above := by
  induction ns with
  | nil => rfl
  | cons n ns rest => rw [placesIn, rest, List.flatMap_cons]

theorem placesIn_append (above ns ms : List Node) :
    placesIn enter above (ns ++ ms) = placesIn enter above ns ++ placesIn enter above ms := by
  induction ns with
  | nil => rfl
  | cons n ns rest => rw [List.cons_append, placesIn, placesIn, rest, List.append_assoc]

/-- All places of a tree. -/
def allPlaces (tree : Node) : List Place := tree.places (fun _ => true) []

theorem above_suffix {n : Node} : ∀ {above : List Node} {p : Place},
    p ∈ n.places enter above → above <:+ p.above := by
  induction n using byChildren with
  | step n below =>
      intro above p inside
      rcases mem_places.mp inside with rfl | ⟨_, c, isChild, lower⟩
      · exact List.suffix_refl above
      · exact (List.suffix_cons n above).trans (below c isChild lower)

/-- Below a child, the way up leads through the node first. -/
theorem through_of_child {n c : Node} {above through : List Node} {p : Place}
    (lower : p ∈ c.places enter (n :: above)) (split : p.above = through ++ above) :
    ∃ further, through = further ++ [n] ∧ p.above = further ++ n :: above := by
  obtain ⟨further, chain⟩ := above_suffix lower
  refine ⟨further, ?_, chain.symm⟩
  have same : through ++ above = (further ++ [n]) ++ above := by
    rw [← split, ← chain]
    simp
  exact List.append_cancel_right same

/-- A walk visits the places that it comes to through nodes that pass its test. -/
theorem mem_places_through {n : Node} : ∀ {above through : List Node} {p : Place},
    p.above = through ++ above →
      (p ∈ n.places enter above ↔
        p ∈ n.places (fun _ => true) above ∧ ∀ a ∈ through, enter a) := by
  induction n using byChildren with
  | step n below =>
      intro above through p split
      rw [mem_places, mem_places]
      constructor
      · rintro (rfl | ⟨down, c, isChild, lower⟩)
        · have none : through = [] := by simpa using split
          exact ⟨Or.inl rfl, by simp [none]⟩
        · obtain ⟨further, rfl, chain⟩ := through_of_child lower split
          obtain ⟨everywhere, entered⟩ := (below c isChild chain).mp lower
          refine ⟨Or.inr ⟨rfl, c, isChild, everywhere⟩, ?_⟩
          simpa [or_imp, forall_and] using ⟨entered, down⟩
      · rintro ⟨rfl | ⟨_, c, isChild, everywhere⟩, entered⟩
        · exact Or.inl rfl
        · obtain ⟨further, rfl, chain⟩ := through_of_child everywhere split
          refine Or.inr ⟨entered n (by simp), c, isChild, ?_⟩
          exact (below c isChild chain).mpr
            ⟨everywhere, fun a earlier => entered a (List.mem_append_left _ earlier)⟩

theorem mem_places_iff_enters {tree : Node} {p : Place} :
    p ∈ tree.places enter [] ↔ p ∈ tree.allPlaces ∧ ∀ a ∈ p.above, enter a :=
  mem_places_through (List.append_nil p.above).symm

/-- Below a place that a walk visits and enters, it visits the children. -/
theorem child_mem_places {n : Node} : ∀ {above : List Node} {p : Place} {c : Node},
    p ∈ n.places enter above → enter p.node → c ∈ p.node.children →
      ⟨c, p.node :: p.above⟩ ∈ n.places enter above := by
  induction n using byChildren with
  | step n below =>
      intro above p c inside down isChild
      rcases mem_places.mp inside with rfl | ⟨entered, d, above', lower⟩
      · exact mem_places.mpr (Or.inr ⟨down, c, isChild, mem_places.mpr (Or.inl rfl)⟩)
      · exact mem_places.mpr (Or.inr ⟨entered, d, above', below d above' lower down isChild⟩)

/-- What stands right above a place of a walk is a place of the walk, and the place is below it. -/
theorem parent_mem_places {n : Node} : ∀ {above : List Node} {p : Place},
    p ∈ n.places enter above → p = ⟨n, above⟩ ∨
      ∃ q ∈ n.places enter above, enter q.node ∧ p.node ∈ q.node.children ∧
        p.above = q.node :: q.above := by
  induction n using byChildren with
  | step n below =>
      intro above p inside
      rcases mem_places.mp inside with rfl | ⟨entered, c, isChild, lower⟩
      · exact Or.inl rfl
      · right
        rcases below c isChild lower with rfl | ⟨q, visited, down, under, chain⟩
        · exact ⟨⟨n, above⟩, mem_places.mpr (Or.inl rfl), entered, isChild, rfl⟩
        · exact ⟨q, mem_places.mpr (Or.inr ⟨entered, c, isChild, visited⟩), down, under, chain⟩

theorem parent_mem_allPlaces {tree : Node} {p : Place} {parent : Node} {rest : List Node}
    (inside : p ∈ tree.allPlaces) (chain : p.above = parent :: rest) :
    ⟨parent, rest⟩ ∈ tree.allPlaces ∧ p.node ∈ parent.children := by
  rcases parent_mem_places inside with rfl | ⟨⟨node, above⟩, visited, _, under, chain'⟩
  · cases chain
  · rw [chain] at chain'
    cases chain'
    exact ⟨visited, under⟩

/-- A place lies in a part of each node above it. -/
theorem part_above {tree a : Node} : ∀ {through up : List Node} {n : Node},
    ⟨n, through ++ a :: up⟩ ∈ tree.allPlaces → ⟨a, up⟩ ∈ tree.allPlaces ∧
      ∃ c ∈ a.children, ⟨n, through ++ a :: up⟩ ∈ c.places (fun _ => true) (a :: up)
  | [], up, n, inside => by
      obtain ⟨above, isChild⟩ := parent_mem_allPlaces inside rfl
      exact ⟨above, n, isChild, mem_places.mpr (Or.inl rfl)⟩
  | b :: through, up, n, inside => by
      obtain ⟨parent, isChild⟩ := parent_mem_allPlaces inside rfl
      obtain ⟨above, c, isPart, lower⟩ := part_above parent
      exact ⟨above, c, isPart, child_mem_places lower rfl isChild⟩

/-- A node somewhere in a tree. -/
def Within (tree n : Node) : Prop := ∃ above, ⟨n, above⟩ ∈ tree.allPlaces

theorem within_self (tree : Node) : Within tree tree :=
  ⟨[], mem_places.mpr (Or.inl rfl)⟩

theorem Within.child {tree n c : Node} (inside : Within tree n) (isChild : c ∈ n.children) :
    Within tree c := by
  obtain ⟨above, place⟩ := inside
  exact ⟨n :: above, child_mem_places place rfl isChild⟩

theorem within_above {tree a : Node} : ∀ {above : List Node} {n : Node},
    ⟨n, above⟩ ∈ tree.allPlaces → a ∈ above → Within tree a
  | parent :: rest, n, inside, passed => by
      obtain ⟨parent_in, _⟩ := parent_mem_allPlaces inside rfl
      rcases List.mem_cons.mp passed with rfl | further
      · exact ⟨rest, parent_in⟩
      · exact within_above parent_in further

theorem child?_mem {n c : Node} {r : Role} (found : n.child? r = some c) : c ∈ n.children :=
  List.mem_of_find?_eq_some found

/-! ## Well-formed trees -/

theorem WellFormed.le {n : Node} (wf : n.WellFormed) : n.start ≤ n.stop := by
  cases n
  exact wf.1

theorem WellFormed.word {n : Node} (wf : n.WellFormed) (isWord : n.kind.isWord) :
    n.start < n.stop ∧ n.children = [] := by
  cases n
  exact wf.2.1 isWord

theorem WellFormed.inside {n : Node} (wf : n.WellFormed) :
    WellFormedFrom n.start n.stop n.children := by
  cases n
  exact wf.2.2.1

theorem WellFormed.roles_nodup {n : Node} (wf : n.WellFormed) : (n.children.filterMap role).Nodup := by
  cases n
  exact wf.2.2.2

theorem WellFormedFrom.le {lo hi : Nat} : ∀ {ns : List Node}, WellFormedFrom lo hi ns → lo ≤ hi
  | [], wf => wf
  | _ :: _, wf => Nat.le_trans (Nat.le_trans wf.1 wf.2.1.le) wf.2.2.le

theorem WellFormedFrom.mem {hi : Nat} {c : Node} : ∀ {lo : Nat} {ns : List Node},
    WellFormedFrom lo hi ns → c ∈ ns → lo ≤ c.start ∧ c.WellFormed ∧ c.stop ≤ hi
  | lo, n :: ns, wf, inside => by
      obtain ⟨after, here, rest⟩ := wf
      rcases List.mem_cons.mp inside with rfl | later
      · exact ⟨after, here, rest.le⟩
      · obtain ⟨lower, cwf, upper⟩ := rest.mem later
        exact ⟨Nat.le_trans after (Nat.le_trans here.le lower), cwf, upper⟩

theorem WellFormedFrom.apart {hi : Nat} {c d : Node} : ∀ {lo : Nat} {ns : List Node},
    WellFormedFrom lo hi ns → c ∈ ns → d ∈ ns →
      c = d ∨ c.stop ≤ d.start ∨ d.stop ≤ c.start
  | lo, n :: ns, wf, first, second => by
      obtain ⟨_, _, rest⟩ := wf
      rcases List.mem_cons.mp first with rfl | c_later
      · rcases List.mem_cons.mp second with rfl | d_later
        · exact Or.inl rfl
        · exact Or.inr (Or.inl (rest.mem d_later).1)
      · rcases List.mem_cons.mp second with rfl | d_later
        · exact Or.inr (Or.inr (rest.mem c_later).1)
        · exact rest.apart c_later d_later

/-- The nodes of a list stand one behind the other. -/
theorem WellFormedFrom.pairwise {hi : Nat} : ∀ {lo : Nat} {ns : List Node}, WellFormedFrom lo hi ns →
    ns.Pairwise fun m n => m.stop ≤ n.start
  | _, [], _ => List.Pairwise.nil
  | _, _ :: _, wf => by
      obtain ⟨_, _, rest⟩ := wf
      exact List.pairwise_cons.mpr ⟨fun m later => (rest.mem later).1, rest.pairwise⟩

theorem WellFormed.child {n c : Node} (wf : n.WellFormed) (isChild : c ∈ n.children) :
    n.start ≤ c.start ∧ c.WellFormed ∧ c.stop ≤ n.stop :=
  wf.inside.mem isChild

theorem role_unique {r : Role} {c d : Node} : ∀ {ns : List Node}, (ns.filterMap role).Nodup →
    c ∈ ns → d ∈ ns → c.role = some r → d.role = some r → c = d
  | n :: ns, distinct, first, second, plays, plays' => by
      rcases List.mem_cons.mp first with rfl | c_later
      · rcases List.mem_cons.mp second with rfl | d_later
        · rfl
        · rw [List.filterMap_cons_some plays, List.nodup_cons] at distinct
          exact absurd (List.mem_filterMap.mpr ⟨d, d_later, plays'⟩) distinct.1
      · rcases List.mem_cons.mp second with rfl | d_later
        · rw [List.filterMap_cons_some plays', List.nodup_cons] at distinct
          exact absurd (List.mem_filterMap.mpr ⟨c, c_later, plays⟩) distinct.1
        · have rest : (ns.filterMap role).Nodup :=
            distinct.sublist ((List.sublist_cons_self n ns).filterMap role)
          exact role_unique rest c_later d_later plays plays'

/-- Two children that play one part are one child. -/
theorem WellFormed.role_unique {n c d : Node} {r : Role} (wf : n.WellFormed)
    (first : c ∈ n.children) (second : d ∈ n.children) (plays : c.plays r) (plays' : d.plays r) :
    c = d :=
  Node.role_unique wf.roles_nodup first second (eq_of_beq plays) (eq_of_beq plays')

/-! ## Where places lie -/

/-- A place of a well-formed tree lies inside the tree. -/
theorem WellFormed.place {n : Node} : ∀ {above : List Node} {p : Place}, n.WellFormed →
    p ∈ n.places enter above →
      n.start ≤ p.node.start ∧ p.node.WellFormed ∧ p.node.stop ≤ n.stop := by
  induction n using byChildren with
  | step n below =>
      intro above p wf inside
      rcases mem_places.mp inside with rfl | ⟨_, c, isChild, lower⟩
      · exact ⟨Nat.le_refl _, wf, Nat.le_refl _⟩
      · obtain ⟨left, cwf, right⟩ := wf.child isChild
        obtain ⟨left', pwf, right'⟩ := below c isChild cwf lower
        exact ⟨Nat.le_trans left left', pwf, Nat.le_trans right' right⟩

/-- Nothing stands below a word. -/
theorem WellFormed.above_not_word {n : Node} : ∀ {above through : List Node} {p : Place},
    n.WellFormed → p ∈ n.places (fun _ => true) above → p.above = through ++ above →
      ∀ a ∈ through, ¬ a.kind.isWord := by
  induction n using byChildren with
  | step n below =>
      intro above through p wf inside split a passed
      rcases mem_places.mp inside with rfl | ⟨_, c, isChild, lower⟩
      · have none : through = [] := by simpa using split
        simp [none] at passed
      · obtain ⟨further, rfl, chain⟩ := through_of_child lower split
        rcases List.mem_append.mp passed with earlier | top
        · exact below c isChild (wf.child isChild).2.1 lower chain a earlier
        · cases List.mem_singleton.mp top
          intro isWord
          simp [(wf.word isWord).2] at isChild

/-- Of two places one is above the other, or they lie apart, or they are the same. -/
theorem WellFormed.places_cases {n : Node} : ∀ {above : List Node} {p q : Place}, n.WellFormed →
    p ∈ n.places (fun _ => true) above → q ∈ n.places (fun _ => true) above →
      p = q ∨ p.node.stop ≤ q.node.start ∨ q.node.stop ≤ p.node.start ∨
        (∃ c ∈ p.node.children, q ∈ c.places (fun _ => true) (p.node :: p.above)) ∨
        (∃ c ∈ q.node.children, p ∈ c.places (fun _ => true) (q.node :: q.above)) := by
  induction n using byChildren with
  | step n below =>
      intro above p q wf p_in q_in
      rcases mem_places.mp p_in with rfl | ⟨_, c, c_child, p_lower⟩
      · rcases mem_places.mp q_in with rfl | ⟨_, d, d_child, q_lower⟩
        · exact Or.inl rfl
        · exact Or.inr (Or.inr (Or.inr (Or.inl ⟨d, d_child, q_lower⟩)))
      · rcases mem_places.mp q_in with rfl | ⟨_, d, d_child, q_lower⟩
        · exact Or.inr (Or.inr (Or.inr (Or.inr ⟨c, c_child, p_lower⟩)))
        · have c_place := (wf.child c_child).2.1.place p_lower
          have d_place := (wf.child d_child).2.1.place q_lower
          rcases wf.inside.apart c_child d_child with rfl | left | right
          · exact below c c_child (wf.child c_child).2.1 p_lower q_lower
          · exact Or.inr (Or.inl (by omega))
          · exact Or.inr (Or.inr (Or.inl (by omega)))

/-! ## Places below others -/

theorem places_trans {n : Node} : ∀ {above : List Node} {p q : Place},
    p ∈ n.places (fun _ => true) above → q ∈ p.node.places (fun _ => true) p.above →
      q ∈ n.places (fun _ => true) above := by
  induction n using byChildren with
  | step n below =>
      intro above p q p_in q_in
      rcases mem_places.mp p_in with rfl | ⟨_, c, isChild, lower⟩
      · exact q_in
      · exact mem_places.mpr (Or.inr ⟨rfl, c, isChild, below c isChild lower q_in⟩)

end Node

/-- A place lies below another. -/
def Place.Under (p a : Place) : Prop := ∃ through, p.above = through ++ a.node :: a.above

namespace Node

theorem mem_places_under {p a : Place} (inside : p ∈ a.node.places (fun _ => true) a.above) :
    p = a ∨ p.Under a := by
  rcases mem_places.mp inside with same | ⟨_, c, _, lower⟩
  · exact Or.inl same
  · obtain ⟨through, chain⟩ := above_suffix lower
    exact Or.inr ⟨through, chain.symm⟩

/-- What lies below a place is a place of the node there. -/
theorem under_mem_places {tree : Node} {p a : Place} (p_in : p ∈ tree.allPlaces) (under : p.Under a) :
    a ∈ tree.allPlaces ∧ p ∈ a.node.places (fun _ => true) a.above := by
  obtain ⟨through, chain⟩ := under
  obtain ⟨node, above⟩ := p
  cases chain
  obtain ⟨above, c, isPart, lower⟩ := part_above p_in
  exact ⟨above, mem_places.mpr (Or.inr ⟨rfl, c, isPart, lower⟩)⟩

theorem WellFormed.under_bytes {tree : Node} {p a : Place} (wf : tree.WellFormed)
    (p_in : p ∈ tree.allPlaces) (under : p.Under a) :
    a.node.start ≤ p.node.start ∧ p.node.stop ≤ a.node.stop := by
  obtain ⟨a_in, inside⟩ := under_mem_places p_in under
  have lies := (wf.place a_in).2.1.place inside
  exact ⟨lies.1, lies.2.2⟩

theorem WellFormed.not_under_word {tree : Node} {p a : Place} (wf : tree.WellFormed)
    (p_in : p ∈ tree.allPlaces) (isWord : a.node.kind.isWord) : ¬ p.Under a := by
  rintro ⟨through, chain⟩
  have inner := wf.above_not_word p_in (List.append_nil _).symm a.node (by simp [chain])
  exact inner isWord

theorem WellFormed.places_under {tree : Node} {p q : Place} (wf : tree.WellFormed)
    (p_in : p ∈ tree.allPlaces) (q_in : q ∈ tree.allPlaces) :
    p = q ∨ p.node.stop ≤ q.node.start ∨ q.node.stop ≤ p.node.start ∨ q.Under p ∨ p.Under q := by
  rcases wf.places_cases p_in q_in with same | left | right | ⟨c, _, lower⟩ | ⟨c, _, lower⟩
  · exact Or.inl same
  · exact Or.inr (Or.inl left)
  · exact Or.inr (Or.inr (Or.inl right))
  · obtain ⟨through, chain⟩ := above_suffix lower
    exact Or.inr (Or.inr (Or.inr (Or.inl ⟨through, chain.symm⟩)))
  · obtain ⟨through, chain⟩ := above_suffix lower
    exact Or.inr (Or.inr (Or.inr (Or.inr ⟨through, chain.symm⟩)))

/-- The places of one child come before those of the next. -/
theorem WellFormedFrom.placesIn_ordered {enter : Node → Bool} {hi : Nat} {above : List Node} :
    ∀ {lo : Nat} {ns : List Node}, WellFormedFrom lo hi ns →
    (∀ c ∈ ns, (c.places enter above).Pairwise fun p q => q.Under p ∨ p.node.stop ≤ q.node.start) →
    (placesIn enter above ns).Pairwise fun p q => q.Under p ∨ p.node.stop ≤ q.node.start
  | _, [], _, _ => List.Pairwise.nil
  | _, n :: ns, wf, each => by
      obtain ⟨_, nwf, rest⟩ := wf
      have later := rest.placesIn_ordered fun c listed => each c (List.mem_cons_of_mem n listed)
      refine List.pairwise_append.mpr ⟨each n List.mem_cons_self, later, ?_⟩
      intro p p_in q q_in
      obtain ⟨c, listed, q_in⟩ := mem_placesIn.mp q_in
      obtain ⟨behind, cwf, _⟩ := rest.mem listed
      have p_lies := nwf.place p_in
      have q_lies := cwf.place q_in
      right
      omega

/-- A walk comes to what lies below a place, and then to what begins behind it. -/
theorem WellFormed.places_ordered {enter : Node → Bool} {n : Node} : ∀ {above : List Node},
    n.WellFormed → (n.places enter above).Pairwise fun p q => q.Under p ∨ p.node.stop ≤ q.node.start := by
  induction n using byChildren with
  | step n below =>
      intro above wf
      have lower := wf.inside.placesIn_ordered fun c isChild =>
        @below c isChild (n :: above) (wf.child isChild).2.1
      cases n with
      | mk k r a b cs =>
          rw [places, List.pairwise_cons]
          constructor
          · intro q q_in
            split at q_in
            · obtain ⟨c, _, inside⟩ := mem_placesIn.mp q_in
              obtain ⟨through, chain⟩ := above_suffix inside
              exact Or.inl ⟨through, chain.symm⟩
            · exact absurd q_in List.not_mem_nil
          · split
            · exact lower
            · exact List.Pairwise.nil

/-- A word in the bytes of a place that is no word lies below it. -/
theorem WellFormed.word_under {tree : Node} {w a : Place} (wf : tree.WellFormed)
    (w_in : w ∈ tree.allPlaces) (a_in : a ∈ tree.allPlaces) (isWord : w.node.kind.isWord)
    (noWord : ¬ a.node.kind.isWord) (start : a.node.start ≤ w.node.start)
    (stop : w.node.stop ≤ a.node.stop) : w.Under a := by
  have long := ((wf.place w_in).2.1.word isWord).1
  rcases wf.places_under w_in a_in with same | left | right | below | under
  · rw [same] at isWord
    exact absurd isWord noWord
  · omega
  · omega
  · exact absurd below (wf.not_under_word a_in isWord)
  · exact under

/-! ## Words -/

/-- The bytes of a word belong to no other word. -/
theorem WellFormed.word_unique {tree : Node} {p q : Place} (wf : tree.WellFormed)
    (p_in : p ∈ tree.allPlaces) (q_in : q ∈ tree.allPlaces) (p_word : p.node.kind.isWord)
    (q_word : q.node.kind.isWord) (start : p.node.start = q.node.start)
    (stop : p.node.stop = q.node.stop) : p = q := by
  have p_long := (wf.place p_in).2.1.word p_word
  have q_long := (wf.place q_in).2.1.word q_word
  rcases wf.places_cases p_in q_in with same | left | right | ⟨c, isChild, _⟩ | ⟨c, isChild, _⟩
  · exact same
  · omega
  · omega
  · simp [p_long.2] at isChild
  · simp [q_long.2] at isChild

/-- A word with nothing beside it does not share its parent's bytes with a node further down. -/
theorem WellFormed.not_below_beside {m n c w : Node} {above above' : List Node}
    (wf : m.WellFormed) (w_child : w ∈ m.children) (isWord : w.kind.isWord)
    (c_child : c ∈ m.children) (lower : ⟨n, above'⟩ ∈ c.places (fun _ => true) above)
    (parent : n.children ≠ []) : ¬ (n.start ≤ m.start ∧ m.stop ≤ n.stop) := by
  rintro ⟨left, right⟩
  obtain ⟨w_left, wwf, w_right⟩ := wf.child w_child
  have w_long := wwf.word isWord
  have n_place : c.start ≤ n.start ∧ n.WellFormed ∧ n.stop ≤ c.stop :=
    (wf.child c_child).2.1.place lower
  rcases wf.inside.apart w_child c_child with rfl | before | after
  · rcases mem_places.mp lower with top | ⟨_, d, d_child, _⟩
    · cases top
      exact parent w_long.2
    · simp [w_long.2] at d_child
  · omega
  · omega

/-- Two words in one part, each under a node of the same bytes, are at one place. -/
theorem WellFormed.parent_unique {tree m n : Node} {p q : Place} {up up' : List Node} {r : Role}
    (wf : tree.WellFormed) (p_in : p ∈ tree.allPlaces) (q_in : q ∈ tree.allPlaces)
    (p_word : p.node.kind.isWord) (q_word : q.node.kind.isWord) (p_above : p.above = m :: up)
    (q_above : q.above = n :: up') (p_plays : p.node.plays r) (q_plays : q.node.plays r)
    (start : m.start = n.start) (stop : m.stop = n.stop) : p = q := by
  obtain ⟨m_in, p_child⟩ := parent_mem_allPlaces p_in p_above
  obtain ⟨n_in, q_child⟩ := parent_mem_allPlaces q_in q_above
  have mwf : m.WellFormed := (wf.place m_in).2.1
  have nwf : n.WellFormed := (wf.place n_in).2.1
  have p_inside := mwf.child p_child
  have p_long := p_inside.2.1.word p_word
  rcases wf.places_cases m_in n_in with same | left | right | ⟨c, isChild, lower⟩ |
    ⟨c, isChild, lower⟩
  · cases same
    have words := mwf.role_unique p_child q_child p_plays q_plays
    cases p
    cases q
    simp_all
  · have before : m.stop ≤ n.start := left
    omega
  · have after : n.stop ≤ m.start := right
    omega
  · exact absurd ⟨by omega, by omega⟩
      (mwf.not_below_beside p_child p_word isChild lower (List.ne_nil_of_mem q_child))
  · exact absurd ⟨by omega, by omega⟩
      (nwf.not_below_beside q_child q_word isChild lower (List.ne_nil_of_mem p_child))

end Node

end ClientMigration.Script
