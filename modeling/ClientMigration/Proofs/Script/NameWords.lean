/-
# Proofs.Script.NameWords -- words that name values, and what stands below them

Three kinds of words name a value. A walk that collects names stops at such a
word, so it comes to all of them only in a tree in which none stands below
another. `NamesApart` says so of a tree, by its own shape, and
`NamesApart.above` says it of the places that a walk goes by.

The reader puts comments into the tree last. Where they land does not matter:
nothing in a comment names a value (`NamesApart.withComment`).
-/
import ClientMigration.Script.Grammar.Module
import ClientMigration.Proofs.Script.Places

namespace ClientMigration.Script

set_option autoImplicit false

/-- Words that name a value. Reducible, so that instances can be found by what it comes to. -/
@[reducible] def Kind.namesValue : Kind → Bool
  | .identifier | .shorthandPropertyIdentifier | .shorthandPropertyIdentifierPattern => true
  | _ => false

namespace Node

/-- Nothing in the tree is a word that names a value. -/
inductive Nameless : Node → Prop
  | mk {k : Kind} {r : Option Role} {a b : Nat} {cs : List Node} (other : ¬ k.namesValue)
      (below : ∀ c ∈ cs, Nameless c) : Nameless (.mk k r a b cs)

/-- Nothing below a word that names a value is another. -/
inductive NamesApart : Node → Prop
  | word {k : Kind} {r : Option Role} {a b : Nat} {cs : List Node}
      (below : ∀ c ∈ cs, Nameless c) : NamesApart (.mk k r a b cs)
  | form {k : Kind} {r : Option Role} {a b : Nat} {cs : List Node} (other : ¬ k.namesValue)
      (below : ∀ c ∈ cs, NamesApart c) : NamesApart (.mk k r a b cs)

variable {n c comment : Node}

theorem Nameless.apart (none : n.Nameless) : n.NamesApart := by
  cases none with
  | mk other below => exact .word below

theorem Nameless.place {enter : Node → Bool} : ∀ {above : List Node} {p : Place}, n.Nameless →
    p ∈ n.places enter above → ¬ p.node.kind.namesValue := by
  induction n using byChildren with
  | step n lower =>
      rintro above p ⟨other, below⟩ inside
      rcases mem_places.mp inside with rfl | ⟨_, c, isChild, inChild⟩
      · exact other
      · exact lower c isChild (below c isChild) inChild

theorem NamesApart.leaf (k : Kind) (r : Option Role) (a b : Nat) : NamesApart (.mk k r a b []) :=
  .word fun _ inside => absurd inside List.not_mem_nil

theorem NamesApart.child (apart : n.NamesApart) (isChild : c ∈ n.children) : c.NamesApart := by
  cases apart with
  | word below => exact (below c isChild).apart
  | form _ below => exact below c isChild

theorem NamesApart.playing (r : Role) (apart : n.NamesApart) : (n.playing r).NamesApart := by
  cases apart with
  | word below => exact .word below
  | form other below => exact .form other below

theorem NamesApart.retag {k : Kind} (other : ¬ k.namesValue) (apart : n.NamesApart) :
    (n.retag k).NamesApart := by
  cases n
  exact .form other fun c isChild => apart.child isChild

/-- The nodes of the tree above a word that names a value are other forms. -/
theorem NamesApart.above : ∀ {above through : List Node} {p : Place}, n.NamesApart →
    p ∈ n.places (fun _ => true) above → p.above = through ++ above → p.node.kind.namesValue →
      ∀ a ∈ through, ¬ a.kind.namesValue := by
  induction n using byChildren with
  | step n lower =>
      intro above through p apart inside split names a passed
      rcases mem_places.mp inside with rfl | ⟨_, c, isChild, inChild⟩
      · have none : through = [] := by simpa using split
        simp [none] at passed
      · obtain ⟨further, rfl, chain⟩ := through_of_child inChild split
        rcases List.mem_append.mp passed with earlier | top
        · exact lower c isChild (apart.child isChild) inChild chain names a earlier
        · cases List.mem_singleton.mp top
          cases apart with
          | word below => exact absurd names ((below c isChild).place inChild)
          | form other _ => exact other

theorem NamesApart.within {tree : Node} (apart : tree.NamesApart) (inside : Within tree n) :
    n.NamesApart := by
  obtain ⟨above, place⟩ := inside
  induction above generalizing n with
  | nil =>
      rcases parent_mem_places place with same | ⟨_, _, _, _, chain⟩
      · cases same
        exact apart
      · cases chain
  | cons parent rest up =>
      obtain ⟨parent_in, isChild⟩ := parent_mem_allPlaces place rfl
      exact (up parent_in).child isChild

/-! ## Comments put in -/

theorem forall_mem_placeComment {P : Node → Prop} (added : P comment) : ∀ {cs : List Node},
    (∀ c ∈ cs, P c) → (∀ c ∈ cs, P (withComment comment c)) → ∀ m ∈ placeComment comment cs, P m
  | [], _, _ => by
      rw [placeComment]
      exact List.forall_mem_singleton.mpr added
  | n :: ns, kept, deeper => by
      obtain ⟨first, rest⟩ := List.forall_mem_cons.mp kept
      obtain ⟨first', rest'⟩ := List.forall_mem_cons.mp deeper
      rw [placeComment]
      split
      · exact List.forall_mem_cons.mpr ⟨first', rest⟩
      · split
        · exact List.forall_mem_cons.mpr ⟨added, kept⟩
        · exact List.forall_mem_cons.mpr ⟨first, forall_mem_placeComment added rest rest'⟩

theorem Nameless.withComment (added : comment.Nameless) : n.Nameless →
    (withComment comment n).Nameless := by
  induction n using byChildren with
  | step n lower =>
      rintro ⟨other, below⟩
      rw [Node.withComment]
      exact .mk other (forall_mem_placeComment added below fun c isChild =>
        lower c isChild (below c isChild))

theorem NamesApart.withComment (added : comment.Nameless) : n.NamesApart →
    (withComment comment n).NamesApart := by
  induction n using byChildren with
  | step n lower =>
      rintro (below | ⟨other, below⟩)
      · rw [Node.withComment]
        exact .word (forall_mem_placeComment added below fun c isChild =>
          Nameless.withComment added (below c isChild))
      · rw [Node.withComment]
        exact .form other (forall_mem_placeComment added.apart below fun c isChild =>
          lower c isChild (below c isChild))

theorem NamesApart.withComments {comments : List Node} (added : ∀ m ∈ comments, m.Nameless)
    (apart : n.NamesApart) :
    (comments.foldl (fun tree m => Node.withComment m tree) n).NamesApart := by
  induction comments generalizing n with
  | nil => exact apart
  | cons m ms more =>
      obtain ⟨first, rest⟩ := List.forall_mem_cons.mp added
      exact more rest (apart.withComment first)

end Node

end ClientMigration.Script
