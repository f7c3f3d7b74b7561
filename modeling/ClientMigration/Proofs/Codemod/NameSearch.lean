/-
# Proofs.Codemod.NameSearch -- the search for an unused name stops

Candidates for the name of a client are tried one after the other for as long as
the body uses them. `SearchEnds` is that search with no bound to it, which need
not end: the candidates are infinitely many, and two of them may be the same. It
does end, since a body uses finitely many names and the candidates with a number
are all different (`fresh_name_found`), and it ends where the search with a bound
does, so that the preferred name is never given out for want of another.

The names tried against are all there are in the body, in the functions inside it
too. The walk that collects them stops at words that name values; it misses none
because in a tree that was read nothing below such a word is another
(`usedNames_complete`).
-/
import Mathlib
import ClientMigration.Proofs.Script.ReadNames
import ClientMigration.Proofs.Codemod.FreshNames

namespace ClientMigration.Codemod

set_option autoImplicit false

open Script

variable {source : Text} {body : Node} {name : String}

/-! ## The names in a body -/

/-- Somewhere in the body, at any depth, a word that names a value spells the name. -/
def SpelledIn (source : Text) (body : Node) (name : String) : Prop :=
  ∃ p ∈ body.allPlaces, p.node.kind.namesValue ∧ p.node.name source = name

/-- The walk for names misses none. -/
theorem usedNames_complete (apart : body.NamesApart) :
    name ∈ usedNames source body ↔ SpelledIn source body name := by
  rw [mem_usedNames]
  constructor
  · rintro ⟨p, visited, word, spelled⟩
    exact ⟨p, (Node.mem_places_iff_enters.mp visited).1, word, spelled⟩
  · rintro ⟨p, inside, word, spelled⟩
    have entered := apart.above inside (List.append_nil p.above).symm word
    have visited : p ∈ body.places (fun n => !n.kind.namesValue) [] :=
      Node.mem_places_iff_enters.mpr ⟨inside, fun a passed => by simpa using entered a passed⟩
    exact ⟨p, visited, word, spelled⟩

/-! ## The search without a bound -/

/-- The search from candidate `i` on ends with a name: it goes by candidates that are used. -/
inductive SearchEnds (used : List String) (preferred : String) : Nat → String → Prop
  | free {i : Nat} (unused : candidateName preferred i ∉ used) :
      SearchEnds used preferred i (candidateName preferred i)
  | taken {i : Nat} {name : String} (inUse : candidateName preferred i ∈ used)
      (later : SearchEnds used preferred (i + 1) name) : SearchEnds used preferred i name

variable {used : List String} {preferred : String}

theorem SearchEnds.unique {i : Nat} {other : String} (ends : SearchEnds used preferred i name)
    (ends' : SearchEnds used preferred i other) : name = other := by
  induction ends with
  | free unused =>
      cases ends' with
      | free => rfl
      | taken inUse => exact absurd inUse unused
  | taken inUse _ same =>
      cases ends' with
      | free unused => exact absurd inUse unused
      | taken _ later => exact same later

/-- What is found within a bound is what the search ends with. -/
theorem searchEnds_of_firstFree? : ∀ {fuel i : Nat},
    firstFree? used preferred fuel i = some name → SearchEnds used preferred i name
  | 0, i, found => by cases found
  | fuel + 1, i, found => by
      rw [firstFree?] at found
      split at found
      · rename_i inUse
        exact .taken (List.contains_iff_mem.mp inUse) (searchEnds_of_firstFree? found)
      · rename_i unused
        cases found
        exact .free fun inUse => unused (List.contains_iff_mem.mpr inUse)

/-- For every body in a module and every preferred name the search stops, at a candidate that no
word of the body spells. The candidates before it are all spelled there, and they are at most one
more than the body has names. The search with a bound comes to the same candidate, so its fallback
is not taken. -/
theorem fresh_name_found {markup : Bool} {tree : Node}
    (isRead : Script.parse markup source = .ok tree) (inside : Node.Within tree body)
    (preferred : String) :
    ∃ k, (∀ name, SearchEnds (usedNames source body) preferred 0 name ↔
        name = candidateName preferred k) ∧
      firstFree? (usedNames source body) preferred ((usedNames source body).length + 2) 0 =
        some (candidateName preferred k) ∧
      freshName (usedNames source body) preferred = candidateName preferred k ∧
      ¬ SpelledIn source body (candidateName preferred k) ∧
      (∀ j < k, SpelledIn source body (candidateName preferred j)) ∧
      k ≤ (usedNames source body).toFinset.card + 1 := by
  have complete {name : String} : name ∈ usedNames source body ↔ SpelledIn source body name :=
    usedNames_complete ((parse_namesApart isRead).within inside)
  obtain ⟨k, found, free, before, bound⟩ := firstFree?_some (usedNames source body) preferred
  have ends := searchEnds_of_firstFree? found
  refine ⟨k, fun name => ⟨fun ends' => ends'.unique ends, ?_⟩, found, ?_, ?_, ?_, bound⟩
  · rintro rfl
    exact ends
  · rw [freshName, found, Option.getD_some]
  · exact fun spelled => free (complete.mpr spelled)
  · exact fun j earlier => complete.mp (before j earlier)

/-- A function that uses the second candidate, and the first with a number in a function inside it. -/
def nestedUse : Text :=
  "function f() \x7b return presetClient(() => (\x7b presetClient2 \x7d)); \x7d".toList

def findsThird (tree : Node) : Bool :=
  tree.allPlaces.any fun p => p.node.kind == .statementBlock &&
    freshName (usedNames nestedUse p.node) "presetClient" == "presetClient3"

def readsNestedUse : Bool :=
  match Script.parse false nestedUse with
  | .ok tree => findsThird tree
  | .error _ => false

theorem nestedUse_found : ∃ tree body, Script.parse false nestedUse = .ok tree ∧
    Node.Within tree body ∧ body.kind = .statementBlock ∧
    SearchEnds (usedNames nestedUse body) "presetClient" 0 "presetClient3" ∧
    ¬ SpelledIn nestedUse body "presetClient3" := by
  have checked : readsNestedUse = true := by decide +kernel
  unfold readsNestedUse at checked
  split at checked
  · rename_i tree isRead
    simp only [findsThird, List.any_eq_true, Bool.and_eq_true, beq_iff_eq] at checked
    obtain ⟨⟨body, above⟩, place, block, third⟩ := checked
    obtain ⟨k, ends, _, fresh, unused, _⟩ := fresh_name_found isRead ⟨above, place⟩ "presetClient"
    rw [← fresh, third] at ends unused
    exact ⟨tree, body, isRead, ⟨above, place⟩, block, (ends "presetClient3").mpr rfl, unused⟩
  · cases checked

example : freshName ["client2", "presetClient", "client22"] "client2" = "client23" := by
  decide +kernel

end ClientMigration.Codemod
