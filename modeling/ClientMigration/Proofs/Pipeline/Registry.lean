/-
# Proofs.Pipeline.Registry -- a registry is a set of stages for each client

The stages of a client are kept in the order of all stages, so they are told by
which of them there are (`inOrder_congr`). Installing stages on a client adds
these to its own (`mem_install`), removing a client leaves it none, and neither
touches another client.
-/
import ClientMigration.Pipeline.Registry

namespace ClientMigration.Registry

set_option autoImplicit false

variable {r : Registry} {client other : String} {s : Stage} {stages : List Stage}

/-! ## Stages in their order -/

theorem mem_all (s : Stage) : s ∈ Stage.all := by cases s <;> decide

theorem mem_inOrder : s ∈ inOrder stages ↔ s ∈ stages := by
  simp [inOrder, mem_all]

theorem inOrder_filter (kept : Stage → Bool) (stages : List Stage) :
    inOrder (stages.filter kept) = (inOrder stages).filter kept := by
  rw [inOrder, inOrder, List.filter_filter]
  refine List.filter_congr fun s _ => ?_
  rw [Bool.eq_iff_iff, List.contains_iff_mem, List.mem_filter, Bool.and_eq_true,
    List.contains_iff_mem]
  exact and_comm

theorem inOrder_congr {stages' : List Stage} (same : ∀ s, s ∈ stages ↔ s ∈ stages') :
    inOrder stages = inOrder stages' := by
  refine List.filter_congr fun s _ => ?_
  rw [Bool.eq_iff_iff, List.contains_iff_mem, List.contains_iff_mem]
  exact same s

/-- Whether the stages of every client are in the order of all stages. -/
def Ordered (r : Registry) : Prop := ∀ client, inOrder (r.stagesOf client) = r.stagesOf client

/-- A client's stages are those that are installed, in the order of all stages. -/
theorem Ordered.stagesOf_eq (ordered : r.Ordered) (same : ∀ s, s ∈ r.stagesOf client ↔ s ∈ stages) :
    r.stagesOf client = inOrder stages :=
  (ordered client).symm.trans (inOrder_congr same)

theorem ordered_empty : Ordered [] := fun _ => rfl

/-! ## One stage, and all -/

theorem stagesOf_register_self (r : Registry) (client : String) (s : Stage) :
    (r.register client s).2.stagesOf client = inOrder (s :: r.stagesOf client) :=
  congrArg (Option.getD · []) (Table.find?_insert_self r client _)

theorem stagesOf_register_of_ne (r : Registry) (s : Stage) (distinct : other ≠ client) :
    (r.register client s).2.stagesOf other = r.stagesOf other :=
  congrArg (Option.getD · []) (Table.find?_insert_of_ne r _ distinct)

/-- What taking a stage away says. -/
theorem remove_told (r : Registry) (client : String) (s : Stage) :
    (r.remove client s).1 = r.isRegistered client s := by
  unfold remove
  split
  · rename_i present
    exact present.symm
  · rename_i absent
    exact (Bool.eq_false_iff.mpr absent).symm

/-- A stage that is not there can be taken away too. -/
theorem stagesOf_remove_self (r : Registry) (client : String) (s : Stage) :
    (r.remove client s).2.stagesOf client = (r.stagesOf client).filter (· != s) := by
  unfold remove
  split
  · exact congrArg (Option.getD · []) (Table.find?_insert_self r client _)
  · rename_i absent
    symm
    rw [List.filter_eq_self]
    intro other listed
    rw [isRegistered, List.contains_iff_mem] at absent
    have distinct : other ≠ s := fun same => absent (same ▸ listed)
    simpa using distinct

theorem stagesOf_remove_of_ne (r : Registry) (s : Stage) (distinct : other ≠ client) :
    (r.remove client s).2.stagesOf other = r.stagesOf other := by
  unfold remove
  split
  · exact congrArg (Option.getD · []) (Table.find?_insert_of_ne r _ distinct)
  · rfl

theorem stagesOf_removeAll_self (r : Registry) (client : String) :
    (r.removeAll client).2.stagesOf client = [] :=
  congrArg (Option.getD · []) (Table.find?_erase_self r client)

theorem stagesOf_removeAll_of_ne (r : Registry) (distinct : other ≠ client) :
    (r.removeAll client).2.stagesOf other = r.stagesOf other :=
  congrArg (Option.getD · []) (Table.find?_erase_of_ne r distinct)

theorem mem_of_mem_removeAll (listed : s ∈ (r.removeAll client).2.stagesOf other) :
    s ∈ r.stagesOf other := by
  by_cases same : other = client
  · subst same
    rw [stagesOf_removeAll_self] at listed
    contradiction
  · rwa [stagesOf_removeAll_of_ne r same] at listed

theorem Ordered.register (ordered : r.Ordered) (client : String) (s : Stage) :
    (r.register client s).2.Ordered := by
  intro other
  by_cases same : other = client
  · subst same
    rw [stagesOf_register_self]
    exact inOrder_congr fun _ => mem_inOrder
  · rw [stagesOf_register_of_ne r s same]
    exact ordered other

theorem Ordered.remove (ordered : r.Ordered) (client : String) (s : Stage) :
    (r.remove client s).2.Ordered := by
  intro other
  by_cases same : other = client
  · subst same
    rw [stagesOf_remove_self, inOrder_filter, ordered other]
  · rw [stagesOf_remove_of_ne r s same]
    exact ordered other

theorem Ordered.removeAll (ordered : r.Ordered) (client : String) : (r.removeAll client).2.Ordered := by
  intro other
  by_cases same : other = client
  · subst same
    rw [stagesOf_removeAll_self]
    decide
  · rw [stagesOf_removeAll_of_ne r same]
    exact ordered other

/-! ## Several stages on one client -/

/-- With stages installed on a client, one after the other. -/
def install (r : Registry) (client : String) (stages : List Stage) : Registry :=
  stages.foldl (fun r s => (r.register client s).2) r

theorem mem_install (r : Registry) (client : String) (stages : List Stage) (s : Stage) :
    s ∈ (r.install client stages).stagesOf client ↔ s ∈ stages ∨ s ∈ r.stagesOf client := by
  induction stages generalizing r with
  | nil => simp [install]
  | cons first stages ih =>
    have next : s ∈ ((r.register client first).2.install client stages).stagesOf client ↔ _ := ih _
    rw [stagesOf_register_self, mem_inOrder, List.mem_cons] at next
    rw [List.mem_cons, or_assoc, or_left_comm]
    exact next

theorem stagesOf_install_of_ne (r : Registry) (stages : List Stage) (distinct : other ≠ client) :
    (r.install client stages).stagesOf other = r.stagesOf other := by
  induction stages generalizing r with
  | nil => rfl
  | cons first stages ih => exact (ih _).trans (stagesOf_register_of_ne r first distinct)

theorem Ordered.install (ordered : r.Ordered) (client : String) (stages : List Stage) :
    (r.install client stages).Ordered := by
  induction stages generalizing r with
  | nil => exact ordered
  | cons first stages ih => exact ih (ordered.register client first)

end ClientMigration.Registry
