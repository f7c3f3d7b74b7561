/-
# Data.Table -- values under names

A table holds at most one value under a name. Its entries are in the order of
their names.
-/
import ClientMigration.Data.Codec

namespace ClientMigration

set_option autoImplicit false

/-- Entries in the strict order of their names. -/
abbrev Table (α : Type) := List (String × α)

namespace Table

variable {α : Type}

/-- The value under a name. -/
def find? (t : Table α) (name : String) : Option α :=
  match t with
  | [] => none
  | (k, v) :: rest => if k == name then some v else find? rest name

/-- The table with `value` under a name, in place of what was there. -/
def insert (t : Table α) (name : String) (value : α) : Table α :=
  match t with
  | [] => [(name, value)]
  | (k, v) :: rest =>
    if k == name then (name, value) :: rest
    else if name < k then (name, value) :: (k, v) :: rest
    else (k, v) :: insert rest name value

/-- The table without what is under a name. -/
def erase (t : Table α) (name : String) : Table α := t.filter (·.1 != name)

/-- The table of entries in any order; of two under one name the later counts. -/
def ofList (entries : List (String × α)) : Table α :=
  entries.foldl (fun t e => t.insert e.1 e.2) []

def codec (value : Codec α) : Codec (Table α) where
  read
    | .record es => (es.mapM fun (e : String × Datum) => (value.read e.2).map fun v => (e.1, v)).map ofList
    | _ => none
  write t := .record (t.map fun e => (e.1, value.write e.2))

/-! ## What is under a name after a change -/

theorem find?_insert_self (t : Table α) (name : String) (value : α) :
    (t.insert name value).find? name = some value := by
  induction t with
  | nil => simp [insert, find?]
  | cons e rest ih =>
    obtain ⟨k, v⟩ := e
    simp only [insert]
    split
    · simp [find?]
    · split
      · simp [find?]
      · rename_i hk _
        simp [find?, hk, ih]

theorem find?_insert_of_ne (t : Table α) {name other : String} (value : α) (h : other ≠ name) :
    (t.insert name value).find? other = t.find? other := by
  induction t with
  | nil => simp [insert, find?, Ne.symm h]
  | cons e rest ih =>
    obtain ⟨k, v⟩ := e
    simp only [insert]
    split
    · rename_i hk
      have hk : k = name := by simpa using hk
      subst hk
      simp [find?, Ne.symm h]
    · split
      · simp [find?, Ne.symm h]
      · by_cases hko : k = other <;> simp [find?, hko, ih]

theorem find?_erase_self (t : Table α) (name : String) : (t.erase name).find? name = none := by
  induction t with
  | nil => rfl
  | cons e rest ih =>
    obtain ⟨k, v⟩ := e
    by_cases hk : k = name <;> simp_all [erase, find?]

theorem find?_erase_of_ne (t : Table α) {name other : String} (h : other ≠ name) :
    (t.erase name).find? other = t.find? other := by
  induction t with
  | nil => rfl
  | cons e rest ih =>
    obtain ⟨k, v⟩ := e
    by_cases hk : k = name
    · subst hk
      simpa [erase, find?, Ne.symm h] using ih
    · by_cases hko : k = other
      · subst hko
        simp [erase, find?, h]
      · simpa [erase, find?, hk, hko] using ih

end Table

end ClientMigration
