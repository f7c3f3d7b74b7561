/-
# Proofs.Codemod.Discovery -- the order in which files are found

Paths are ordered like lists of their components, and components by their kind and
then by their names, so the order of paths is transitive and total
(`compareComponents_eq`, `Component.compare_eq`). What is found is sorted, and of
neighbours with the same components the first stays, so what is found increases
strictly (`discover_sorted`) and no path is found twice (`discover_nodup`). One
path stays for each list of components (`withoutRepeats_complete`).
-/
import Mathlib.Data.List.Nodup
import ClientMigration.Codemod.Batch

namespace ClientMigration

set_option autoImplicit false

namespace Path

/-! ## The order of paths -/

namespace Component

/-- The text of a name. -/
def nameText : Component → String
  | .name s => s
  | _ => ""

theorem compare_eq : compare = compareLex (compareOn rank) (compareOn nameText) := by
  funext a b
  cases a <;> cases b <;> rfl

instance : Std.TransCmp compare := by
  rw [compare_eq]
  infer_instance

instance : Std.LawfulEqCmp compare where
  compare_self := Std.ReflCmp.compare_self
  eq_of_compare := by
    intro a b same
    cases a <;> cases b <;> first | rfl | cases same | skip
    exact congrArg name (Std.LawfulEqOrd.eq_of_compare same)

end Component

theorem compareComponents_eq : compareComponents = List.compareLex Component.compare := by
  funext as bs
  induction as generalizing bs with
  | nil => cases bs <;> rfl
  | cons a as ih =>
    cases bs with
    | nil => rfl
    | cons b bs =>
      rw [compareComponents, List.compareLex_cons_cons, ih]

theorem compare_eq (p q : Path) :
    p.compare q = List.compareLex Component.compare p.components q.components := by
  rw [compare, compareComponents_eq]

instance : Std.TransCmp compare where
  eq_swap := by
    intro p q
    rw [compare_eq, compare_eq]
    exact Std.OrientedCmp.eq_swap
  isLE_trans := by
    intro p q r
    rw [compare_eq, compare_eq, compare_eq]
    exact Std.TransCmp.isLE_trans

theorem compare_eq_iff (p q : Path) : p.compare q = .eq ↔ p.components = q.components := by
  rw [compare_eq]
  exact Std.LawfulEqCmp.compare_eq_iff_eq

end Path

namespace Codemod

variable {files : Tree} {roots ps : List Path}

/-! ## What is found -/

theorem mem_withoutRepeats {p : Path} (ps : List Path) (listed : p ∈ withoutRepeats ps) : p ∈ ps := by
  induction ps using withoutRepeats.induct with
  | case1 => rwa [withoutRepeats] at listed
  | case2 first => rwa [withoutRepeats] at listed
  | case3 first second rest same ih =>
    rw [withoutRepeats, if_pos same] at listed
    rcases List.mem_cons.mp (ih listed) with here | below
    · exact List.mem_cons.mpr (Or.inl here)
    · exact List.mem_cons_of_mem _ (List.mem_cons_of_mem _ below)
  | case4 first second rest distinct ih =>
    rw [withoutRepeats, if_neg distinct] at listed
    rcases List.mem_cons.mp listed with here | below
    · exact List.mem_cons.mpr (Or.inl here)
    · exact List.mem_cons_of_mem _ (ih below)

/-- A sorted list increases strictly without the paths that equal the one in front of them. -/
theorem withoutRepeats_sorted (ps : List Path)
    (sorted : ps.Pairwise fun p q => (p.compare q).isLE = true) :
    (withoutRepeats ps).Pairwise fun p q => p.compare q = .lt := by
  induction ps using withoutRepeats.induct with
  | case1 =>
    rw [withoutRepeats]
    exact List.Pairwise.nil
  | case2 first =>
    rw [withoutRepeats]
    exact List.pairwise_singleton _ _
  | case3 first second rest same ih =>
    rw [withoutRepeats, if_pos same]
    exact ih (sorted.sublist (List.Sublist.cons_cons first (List.sublist_cons_self second rest)))
  | case4 first second rest distinct ih =>
    rw [withoutRepeats, if_neg distinct]
    obtain ⟨above, below⟩ := List.pairwise_cons.mp sorted
    have less : first.compare second = .lt := by
      have le := above second List.mem_cons_self
      cases order : first.compare second <;> simp_all
    refine List.pairwise_cons.mpr ⟨fun p listed => ?_, ih below⟩
    rcases List.mem_cons.mp (mem_withoutRepeats _ listed) with rfl | further
    · exact less
    · exact Std.TransCmp.lt_of_lt_of_isLE less ((List.pairwise_cons.mp below).1 p further)

/-- Of each spelling one stays. -/
theorem withoutRepeats_complete {p : Path} (ps : List Path) (listed : p ∈ ps) :
    ∃ q ∈ withoutRepeats ps, q.components = p.components := by
  induction ps using withoutRepeats.induct generalizing p with
  | case1 => cases listed
  | case2 first =>
    rw [withoutRepeats]
    exact ⟨first, List.mem_singleton_self first, by rw [List.mem_singleton.mp listed]⟩
  | case3 first second rest same ih =>
    rw [withoutRepeats, if_pos same]
    have same : first.components = second.components := (Path.compare_eq_iff _ _).mp (by simpa using same)
    rcases List.mem_cons.mp listed with rfl | listed
    · exact ih List.mem_cons_self
    · rcases List.mem_cons.mp listed with rfl | below
      · rw [← same]
        exact ih List.mem_cons_self
      · exact ih (List.mem_cons_of_mem _ below)
  | case4 first second rest distinct ih =>
    rw [withoutRepeats, if_neg distinct]
    rcases List.mem_cons.mp listed with rfl | listed
    · exact ⟨p, List.mem_cons_self, rfl⟩
    · obtain ⟨q, kept, same⟩ := ih listed
      exact ⟨q, List.mem_cons_of_mem _ kept, same⟩

theorem discover_eq_ok (found : discover files roots = .ok ps) :
    ∃ all, candidatesOf files roots = .ok all ∧
      ps = withoutRepeats (all.mergeSort fun p q => (p.compare q).isLE) := by
  unfold discover at found
  cases candidates : candidatesOf files roots with
  | error e => rw [candidates] at found; cases found
  | ok all =>
    rw [candidates] at found
    cases found
    exact ⟨all, rfl, rfl⟩

/-- What is found increases strictly. -/
theorem discover_sorted (found : discover files roots = .ok ps) :
    ps.Pairwise fun p q => p.compare q = .lt := by
  obtain ⟨all, _, rfl⟩ := discover_eq_ok found
  refine withoutRepeats_sorted _ (List.pairwise_mergeSort (fun p q r => Std.TransCmp.isLE_trans) ?_ all)
  intro p q
  have swap : q.compare p = (p.compare q).swap := Std.OrientedCmp.eq_swap
  rw [swap]
  cases p.compare q <;> rfl

theorem discover_nodup (found : discover files roots = .ok ps) : ps.Nodup := by
  refine (discover_sorted found).imp fun {p q} less same => ?_
  rw [same] at less
  cases less.symm.trans (Std.ReflCmp.compare_self (a := q))

/-- Two paths that are discovered differ in their components. -/
theorem eq_of_components (found : discover files roots = .ok ps) {p q : Path} (listed : p ∈ ps)
    (listed' : q ∈ ps) (same : p.components = q.components) : p = q := by
  have apart : (ps.map Path.components).Nodup := by
    refine List.pairwise_map.mpr ((discover_sorted found).imp fun {p q} less same => ?_)
    rw [(Path.compare_eq_iff p q).mpr same] at less
    cases less
  exact List.inj_on_of_nodup_map apart listed listed' same

/-- Nothing but a root that is missing stops the search. -/
theorem discover_ok (exist : ∀ root ∈ roots, ∃ t, files.find root = .ok t) :
    ∃ ps, discover files roots = .ok ps := by
  have candidates : ∃ all, candidatesOf files roots = .ok all := by
    induction roots with
    | nil => exact ⟨[], rfl⟩
    | cons root roots ih =>
      obtain ⟨t, there⟩ := exist root List.mem_cons_self
      obtain ⟨all, below⟩ := ih fun r listed => exist r (List.mem_cons_of_mem _ listed)
      refine ⟨candidatesIn root t ++ all, ?_⟩
      rw [candidatesOf, there]
      simp only [below]
      rfl
  obtain ⟨all, candidates⟩ := candidates
  unfold discover
  rw [candidates]
  exact ⟨_, rfl⟩

end Codemod

end ClientMigration
