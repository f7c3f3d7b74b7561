/-
# Proofs.Pipeline.Pairs -- a registry is a set of pairs

A registry keeps a list of stages under the name of each client. A client whose
stages have all been taken away keeps an empty list, and one that was removed has
none, so registries that hold the same stages need not be equal.

`Represents` says which pairs of a client and a stage a registry stands for. Every
operation answers as the set of pairs does and leaves a registry that stands for
what the set becomes (`Represents.perform`), and so does every run of operations.
What is answered to one client comes from the operations on that client alone
(`answered_alone`), for an operation changes no other (`perform_other`) and goes by
nothing but its own client's stages (`perform_alike`).
-/
import Mathlib.Data.Finset.Card
import Mathlib.Data.Finset.Image
import ClientMigration.Proofs.Pipeline.Registry

namespace ClientMigration.Registry

set_option autoImplicit false

/-! ## Operations and their answers -/

inductive Operation where
  | register (client : String) (stage : Stage)
  | remove (client : String) (stage : Stage)
  | removeAll (client : String)
  | isRegistered (client : String) (stage : Stage)
  | stagesOf (client : String)
  deriving DecidableEq

/-- The client that an operation is about. -/
def Operation.client : Operation → String
  | .register client _ => client
  | .remove client _ => client
  | .removeAll client => client
  | .isRegistered client _ => client
  | .stagesOf client => client

inductive Answer where
  | truth (holds : Bool)
  | count (n : Nat)
  | stages (listed : List Stage)
  deriving DecidableEq

def perform (r : Registry) : Operation → Answer × Registry
  | .register client s => (r.register client s).map .truth id
  | .remove client s => (r.remove client s).map .truth id
  | .removeAll client => (r.removeAll client).map .count id
  | .isRegistered client s => (.truth (r.isRegistered client s), r)
  | .stagesOf client => (.stages (r.stagesOf client), r)

section

variable {σ : Type} (perform : σ → Operation → Answer × σ)

/-- The operations of a run with what each of them was answered. -/
def answered (s : σ) : List Operation → List (Operation × Answer)
  | [] => []
  | op :: ops => (op, (perform s op).1) :: answered (perform s op).2 ops

/-- What a run leaves. -/
def after (s : σ) (ops : List Operation) : σ := ops.foldl (fun s op => (perform s op).2) s

end

/-! ## Sets of pairs -/

/-- Clients with the stages that are installed on them. -/
abbrev Pairs := Finset (String × Stage)

/-- What a set of pairs answers, and what becomes of it. -/
def Pairs.perform (pairs : Pairs) : Operation → Answer × Pairs
  | .register client s => (.truth ((client, s) ∉ pairs), insert (client, s) pairs)
  | .remove client s => (.truth ((client, s) ∈ pairs), pairs.erase (client, s))
  | .removeAll client =>
    (.count (pairs.filter (·.1 = client)).card, pairs.filter (·.1 ≠ client))
  | .isRegistered client s => (.truth ((client, s) ∈ pairs), pairs)
  | .stagesOf client => (.stages (Stage.all.filter fun s => (client, s) ∈ pairs), pairs)

/-- The registry holds these pairs, each client's stages in the order of all stages. -/
structure Represents (r : Registry) (pairs : Pairs) : Prop where
  holds : ∀ client s, s ∈ r.stagesOf client ↔ (client, s) ∈ pairs
  ordered : r.Ordered

variable {r r' : Registry} {pairs : Pairs} {client other : String} {s : Stage}

theorem all_increasing : Stage.all.Pairwise fun a b => a.index < b.index := by decide

theorem Ordered.increasing (ordered : r.Ordered) (client : String) :
    (r.stagesOf client).Pairwise fun a b => a.index < b.index := by
  rw [← ordered client]
  exact all_increasing.filter _

theorem Ordered.nodup (ordered : r.Ordered) (client : String) : (r.stagesOf client).Nodup :=
  (ordered.increasing client).imp fun {a b} before same => by
    rw [same] at before
    exact lt_irrefl _ before

namespace Represents

theorem isRegistered (here : Represents r pairs) (client : String) (s : Stage) :
    r.isRegistered client s = decide ((client, s) ∈ pairs) := by
  rw [Bool.eq_iff_iff, Registry.isRegistered, List.contains_iff_mem, decide_eq_true_iff]
  exact here.holds client s

theorem stagesOf (here : Represents r pairs) (client : String) :
    r.stagesOf client = Stage.all.filter fun s => (client, s) ∈ pairs := by
  rw [← here.ordered client]
  refine List.filter_congr fun s _ => ?_
  exact here.isRegistered client s

/-- A client has as many stages as there are pairs with it. -/
theorem count (here : Represents r pairs) (client : String) :
    (r.stagesOf client).length = (pairs.filter (·.1 = client)).card := by
  have own : pairs.filter (·.1 = client) = (r.stagesOf client).toFinset.image (Prod.mk client) := by
    ext ⟨name, s⟩
    rw [Finset.mem_filter, Finset.mem_image]
    constructor
    · rintro ⟨held, rfl⟩
      exact ⟨s, List.mem_toFinset.mpr ((here.holds name s).mpr held), rfl⟩
    · rintro ⟨_, listed, same⟩
      obtain ⟨rfl, rfl⟩ := Prod.mk.inj same
      exact ⟨(here.holds _ _).mp (List.mem_toFinset.mp listed), rfl⟩
  rw [own, Finset.card_image_of_injective _ (Prod.mk_right_injective client),
    List.toFinset_card_of_nodup (here.ordered.nodup client)]

theorem register (here : Represents r pairs) (client : String) (s : Stage) :
    Represents (r.register client s).2 (insert (client, s) pairs) where
  holds := by
    intro other t
    rw [Finset.mem_insert, Prod.mk.injEq]
    by_cases same : other = client
    · subst same
      rw [stagesOf_register_self, mem_inOrder, List.mem_cons, here.holds]
      simp
    · rw [stagesOf_register_of_ne r s same, here.holds]
      simp [same]
  ordered := here.ordered.register client s

theorem remove (here : Represents r pairs) (client : String) (s : Stage) :
    Represents (r.remove client s).2 (pairs.erase (client, s)) where
  holds := by
    intro other t
    rw [Finset.mem_erase, Ne, Prod.mk.injEq]
    by_cases same : other = client
    · subst same
      rw [stagesOf_remove_self, List.mem_filter, here.holds]
      simp [and_comm]
    · rw [stagesOf_remove_of_ne r s same, here.holds]
      simp [same]
  ordered := here.ordered.remove client s

theorem removeAll (here : Represents r pairs) (client : String) :
    Represents (r.removeAll client).2 (pairs.filter (·.1 ≠ client)) where
  holds := by
    intro other t
    rw [Finset.mem_filter]
    by_cases same : other = client
    · subst same
      rw [stagesOf_removeAll_self]
      simp
    · rw [stagesOf_removeAll_of_ne r same, here.holds]
      simp [same]
  ordered := here.ordered.removeAll client

/-- An operation is answered as the set of pairs answers it, and leaves what the set becomes. -/
theorem perform (here : Represents r pairs) (op : Operation) :
    (r.perform op).1 = (pairs.perform op).1 ∧ Represents (r.perform op).2 (pairs.perform op).2 := by
  cases op with
  | register client s =>
    refine ⟨?_, here.register client s⟩
    show Answer.truth (!r.isRegistered client s) = _
    rw [here.isRegistered client s, ← decide_not]
    rfl
  | remove client s =>
    refine ⟨?_, here.remove client s⟩
    show Answer.truth (r.remove client s).1 = _
    rw [remove_told, here.isRegistered client s]
    rfl
  | removeAll client => exact ⟨congrArg Answer.count (here.count client), here.removeAll client⟩
  | isRegistered client s => exact ⟨congrArg Answer.truth (here.isRegistered client s), here⟩
  | stagesOf client => exact ⟨congrArg Answer.stages (here.stagesOf client), here⟩

theorem run (here : Represents r pairs) (ops : List Operation) :
    answered Registry.perform r ops = answered Pairs.perform pairs ops ∧
      Represents (after Registry.perform r ops) (after Pairs.perform pairs ops) := by
  induction ops generalizing r pairs with
  | nil => exact ⟨rfl, here⟩
  | cons op ops ih =>
    obtain ⟨told, there⟩ := here.perform op
    obtain ⟨later, last⟩ := ih there
    refine ⟨?_, last⟩
    rw [answered, answered, told, later]

end Represents

theorem represents_empty : Represents [] ∅ where
  holds := by
    intro client s
    exact iff_of_false List.not_mem_nil (Finset.notMem_empty _)
  ordered := ordered_empty

/-! ## One client among others -/

/-- An operation changes nothing for the clients that it is not about. -/
theorem perform_other (r : Registry) {op : Operation} (distinct : other ≠ op.client) :
    (r.perform op).2.stagesOf other = r.stagesOf other := by
  cases op with
  | register client s => exact stagesOf_register_of_ne r s distinct
  | remove client s => exact stagesOf_remove_of_ne r s distinct
  | removeAll client => exact stagesOf_removeAll_of_ne r distinct
  | isRegistered client s => rfl
  | stagesOf client => rfl

/-- What an operation answers, and what it leaves for its client, is told by that client's stages. -/
theorem perform_alike {op : Operation} (same : r.stagesOf op.client = r'.stagesOf op.client) :
    (r.perform op).1 = (r'.perform op).1 ∧
      (r.perform op).2.stagesOf op.client = (r'.perform op).2.stagesOf op.client := by
  have registered (s : Stage) : r.isRegistered op.client s = r'.isRegistered op.client s :=
    congrArg (List.contains · s) same
  cases op with
  | register client s =>
    refine ⟨congrArg (fun there => Answer.truth !there) (registered s), ?_⟩
    show (r.register client s).2.stagesOf client = (r'.register client s).2.stagesOf client
    rw [stagesOf_register_self, stagesOf_register_self]
    exact congrArg (fun stages => inOrder (s :: stages)) same
  | remove client s =>
    constructor
    · show Answer.truth (r.remove client s).1 = Answer.truth (r'.remove client s).1
      rw [remove_told, remove_told]
      exact congrArg Answer.truth (registered s)
    · show (r.remove client s).2.stagesOf client = (r'.remove client s).2.stagesOf client
      rw [stagesOf_remove_self, stagesOf_remove_self]
      exact congrArg (List.filter (· != s)) same
  | removeAll client =>
    refine ⟨congrArg (fun stages : List Stage => Answer.count stages.length) same, ?_⟩
    show (r.removeAll client).2.stagesOf client = (r'.removeAll client).2.stagesOf client
    rw [stagesOf_removeAll_self, stagesOf_removeAll_self]
  | isRegistered client s => exact ⟨congrArg Answer.truth (registered s), same⟩
  | stagesOf client => exact ⟨congrArg Answer.stages same, same⟩

/-- What a client is answered in a run is what it is answered without the others. -/
theorem answered_alone (same : r.stagesOf client = r'.stagesOf client) (ops : List Operation) :
    (answered perform r ops).filter (fun told => told.1.client = client) =
      answered perform r' (ops.filter fun op => op.client = client) := by
  induction ops generalizing r r' with
  | nil => rfl
  | cons op ops ih =>
    by_cases own : op.client = client
    · subst own
      obtain ⟨told, alike⟩ := perform_alike same
      rw [List.filter_cons_of_pos (by simp), answered, answered, List.filter_cons_of_pos (by simp), told,
        ih alike]
    · rw [List.filter_cons_of_neg (by simpa using own), answered,
        List.filter_cons_of_neg (by simpa using own)]
      exact ih ((perform_other r (Ne.symm own)).trans same)

/-- A registry that begins empty gives every answer that the set of pairs gives, over any run: whether
a stage was absent when it is installed, whether it was there when it is taken away, how many stages a
removed client had, and which stages a client has. It then holds the pairs of the set, the stages of a
client are listed in their order and none of them twice, and what a client is answered is what it would
be answered without the operations on other clients. -/
theorem refines_pairs (ops : List Operation) :
    answered perform [] ops = answered Pairs.perform ∅ ops ∧
    (∀ client s, s ∈ (after perform [] ops).stagesOf client ↔
      (client, s) ∈ after Pairs.perform ∅ ops) ∧
    (∀ client, ((after perform [] ops).stagesOf client).Pairwise fun a b => a.index < b.index) ∧
    ∀ client, (answered perform [] ops).filter (fun told => told.1.client = client) =
      answered perform [] (ops.filter fun op => op.client = client) := by
  obtain ⟨answers, last⟩ := represents_empty.run ops
  exact ⟨answers, last.holds, last.ordered.increasing, fun client => answered_alone rfl ops⟩

end ClientMigration.Registry
