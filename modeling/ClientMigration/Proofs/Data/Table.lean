/-
# Proofs.Data.Table -- tables in the order of their names

A table's names increase strictly. Putting a value in and taking one out keep that
(`sorted_insert`, `sorted_erase`), so what is read from entries in any order is a
table (`sorted_ofList`) that holds under each name the last value given
(`find?_ofList`). A table read from its own entries is the same table
(`ofList_of_sorted`).
-/
import Mathlib.Data.List.Induction
import Mathlib.Data.String.Basic
import ClientMigration.Data.Table
import ClientMigration.Proofs.Data.Steps

namespace ClientMigration.Table

set_option autoImplicit false

variable {α : Type} {t : Table α} {name : String} {value : α}

/-- The names increase strictly. -/
def Sorted (t : Table α) : Prop := t.Pairwise fun a b => a.1 < b.1

theorem mem_insert {e : String × α} (listed : e ∈ t.insert name value) : e = (name, value) ∨ e ∈ t := by
  induction t with
  | nil => exact Or.inl (List.mem_singleton.mp listed)
  | cons first rest ih =>
    obtain ⟨k, v⟩ := first
    rw [insert] at listed
    split at listed
    · rcases List.mem_cons.mp listed with new | old
      · exact Or.inl new
      · exact Or.inr (List.mem_cons_of_mem _ old)
    · split at listed
      · exact List.mem_cons.mp listed
      · rcases List.mem_cons.mp listed with here | below
        · exact Or.inr (List.mem_cons.mpr (Or.inl here))
        · exact (ih below).imp_right (List.mem_cons_of_mem _)

theorem sorted_insert (sorted : Sorted t) : Sorted (t.insert name value) := by
  induction t with
  | nil => exact List.pairwise_singleton _ _
  | cons first rest ih =>
    obtain ⟨k, v⟩ := first
    obtain ⟨above, below⟩ := List.pairwise_cons.mp sorted
    rw [insert]
    split
    · rename_i same
      have same : k = name := by simpa using same
      subst same
      exact List.pairwise_cons.mpr ⟨above, below⟩
    · rename_i distinct
      have distinct : k ≠ name := by simpa using distinct
      split
      · rename_i before
        refine List.pairwise_cons.mpr ⟨fun e listed => ?_, sorted⟩
        rcases List.mem_cons.mp listed with rfl | listed
        · exact before
        · exact before.trans (above e listed)
      · rename_i after
        have after : k < name := lt_of_le_of_ne (not_lt.mp after) distinct
        refine List.pairwise_cons.mpr ⟨fun e listed => ?_, ih below⟩
        rcases mem_insert listed with rfl | listed
        · exact after
        · exact above e listed

theorem sorted_erase (sorted : Sorted t) : Sorted (t.erase name) := List.Pairwise.filter _ sorted

theorem sorted_ofList (entries : List (String × α)) : Sorted (ofList entries) := by
  unfold ofList
  induction entries using List.reverseRecOn with
  | nil => exact List.Pairwise.nil
  | append_singleton entries e ih =>
    rw [List.foldl_append]
    exact sorted_insert ih

/-- Of two values under one name the later counts. -/
theorem find?_ofList (entries : List (String × α)) (name : String) :
    (ofList entries).find? name = entries.reverse.lookup name := by
  unfold ofList
  induction entries using List.reverseRecOn with
  | nil => rfl
  | append_singleton entries e ih =>
    obtain ⟨k, v⟩ := e
    rw [List.foldl_append, List.reverse_append]
    by_cases same : name = k
    · subst same
      exact (find?_insert_self _ name v).trans (by simp)
    · exact (find?_insert_of_ne _ v same).trans (ih.trans (by simp [List.lookup_cons, beq_false_of_ne same]))

theorem insert_last (after : ∀ e ∈ t, e.1 < name) : t.insert name value = t ++ [(name, value)] := by
  induction t with
  | nil => rfl
  | cons first rest ih =>
    obtain ⟨k, v⟩ := first
    have here : k < name := after (k, v) List.mem_cons_self
    rw [insert, if_neg (by simpa using here.ne), if_neg here.asymm,
      ih fun e listed => after e (List.mem_cons_of_mem _ listed)]
    rfl

theorem ofList_of_sorted (sorted : Sorted t) : ofList t = t := by
  unfold ofList
  induction t using List.reverseRecOn with
  | nil => rfl
  | append_singleton t e ih =>
    obtain ⟨before, _, after⟩ := List.pairwise_append.mp sorted
    rw [List.foldl_append, ih before]
    exact insert_last fun e' listed => after e' listed e (List.mem_singleton_self e)

/-- The entries that were written are read. -/
theorem codec_text_read (entries : List (String × String)) :
    (codec .text).read (.record (entries.map fun e => (e.1, .text e.2))) = some (ofList entries) :=
  congrArg (Option.map ofList) (mapM_map_some (by intro _; rfl) entries)

/-- A table that was read is in order. -/
theorem sorted_of_read {value : Codec α} {d : Datum} (read : (codec value).read d = some t) : Sorted t := by
  cases d with
  | record es =>
    obtain ⟨entries, _, rfl⟩ := Option.map_eq_some_iff.mp read
    exact sorted_ofList entries
  | _ => cases read

end ClientMigration.Table
