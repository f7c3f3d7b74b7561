/-
# Proofs.Data.Codec -- what is written as a datum is read from it

A codec keeps to a range if it reads back whatever it writes of the values in
range, reads no other values, and writes nothing that a data file cannot hold
(`Codec.Keeps`). The codecs of single values keep to theirs, and lists and optional
values keep to the range of what they are made of.

A field of a record takes what its only entry holds and keeps its default without
one (`Given`): that is all that setting it comes to (`putFrom_of_iff`), and an entry
that was written is given back (`Codec.Keeps.given`). A record that is read one
field after the other has whatever every field keeps (`Codec.settings_keep`).
-/
import ClientMigration.Data.Codec
import ClientMigration.Proofs.Data.JsonLine
import ClientMigration.Proofs.Data.Steps

namespace ClientMigration

set_option autoImplicit false

variable {α β : Type}

/-! ## Single values -/

/-- A codec that reads back what it writes of the values in a range, and reads no others. -/
structure Codec.Keeps (codec : Codec β) (InRange : β → Prop) : Prop where
  read_write : ∀ x, InRange x → codec.read (codec.write x) = some x
  inRange : ∀ d x, codec.read d = some x → InRange x
  proper : ∀ x, Json.Proper (codec.write x)

/-- Every value is in range. -/
def Anything (_ : β) : Prop := True

namespace Codec

variable {InRange : β → Prop} {codec : Codec β}

theorem boolean_keeps : boolean.Keeps Anything where
  read_write _ _ := rfl
  inRange _ _ _ := trivial
  proper _ := trivial

theorem text_keeps : text.Keeps Anything where
  read_write _ _ := rfl
  inRange _ _ _ := trivial
  proper _ := trivial

theorem unsigned_keeps (bits : Nat) : (unsigned bits).Keeps (· < Nat.pow 2 bits) where
  read_write n room := by
    have room : (n : Int) < (Nat.pow 2 bits : Nat) := Int.ofNat_lt.mpr room
    refine (if_pos ?_).trans (congrArg some (Int.toNat_natCast n))
    simp only [Bool.and_eq_true, decide_eq_true_eq]
    exact ⟨Int.natCast_nonneg n, room⟩
  inRange d n read := by
    cases d with
    | whole m =>
      simp only [unsigned, Option.ite_none_right_eq_some, Bool.and_eq_true, decide_eq_true_eq,
        Option.some.injEq] at read
      obtain ⟨⟨nonneg, room⟩, rfl⟩ := read
      exact (Int.toNat_lt nonneg).mpr room
    | _ => cases read
  proper _ := trivial

/-- Names that tell the members of a closed set apart give them back. -/
theorem member_keeps {all : List β} {name : β → String}
    (found : ∀ x, all.find? (name · == name x) = some x) : (member all name).Keeps Anything where
  read_write x _ := found x
  inRange _ _ _ := trivial
  proper _ := trivial

/-- Texts are never written as nothing. -/
theorem optional_text_keeps : (optional text).Keeps Anything where
  read_write
    | none, _ => rfl
    | some _, _ => rfl
  inRange _ _ _ := trivial
  proper
    | none => trivial
    | some _ => trivial

theorem Keeps.list (keeps : codec.Keeps InRange) : (list codec).Keeps fun xs => ∀ x ∈ xs, InRange x where
  read_write xs inRange := by
    show (xs.map codec.write).mapM codec.read = some xs
    rw [mapM_eq_some_iff, List.map_map]
    exact List.map_congr_left fun x listed => keeps.read_write x (inRange x listed)
  inRange d xs read x listed := by
    cases d with
    | list items =>
      have whole : items.map codec.read = xs.map some := mapM_eq_some_iff.mp read
      have given : some x ∈ items.map codec.read := by
        rw [whole]
        exact List.mem_map_of_mem listed
      obtain ⟨item, _, read⟩ := List.mem_map.mp given
      exact keeps.inRange item x read
    | _ => cases read
  proper xs := by
    show Json.ProperItems (xs.map codec.write)
    induction xs with
    | nil => trivial
    | cons x xs ih => exact ⟨keeps.proper x, ih⟩

theorem texts_keeps : (Codec.list text).Keeps Anything where
  read_write xs _ := text_keeps.list.read_write xs fun _ _ => trivial
  inRange _ _ _ := trivial
  proper := text_keeps.list.proper

/-! ## As JSON -/

/-- The value that a JSON text holds, if it holds one. -/
def ofJson (codec : Codec β) (t : Text) : Option β := (Json.read t).bind codec.read

/-- Whether a value is read from what is written for it, on one line or on several. -/
def ReadsBack (codec : Codec β) (x : β) : Prop :=
  codec.ofJson (Json.compact (codec.write x)) = some x ∧ codec.ofJson (Json.indented (codec.write x)) = some x

theorem Keeps.readsBack (keeps : codec.Keeps InRange) {x : β} (inRange : InRange x) : codec.ReadsBack x := by
  unfold ReadsBack ofJson
  rw [Json.read_compact (keeps.proper x), Json.read_indented (keeps.proper x)]
  exact ⟨keeps.read_write x inRange, keeps.read_write x inRange⟩

/-- Whatever text a value in range came from, it is read back from its own. -/
theorem Keeps.of_ofJson (keeps : codec.Keeps InRange) {t : Text} {x : β} (held : codec.ofJson t = some x) :
    InRange x ∧ codec.ReadsBack x := by
  obtain ⟨d, _, read⟩ := Option.bind_eq_some_iff.mp held
  have inRange := keeps.inRange d x read
  exact ⟨inRange, keeps.readsBack inRange⟩

end Codec

/-! ## Fields -/

/-- The value of a field: what its only entry holds, or the default if it has none. -/
inductive Given (codec : Codec β) (es : List (String × Datum)) (name : String) (default : β) : β → Prop
  | absent : Datum.under es name = [] → Given codec es name default default
  | present {d : Datum} {v : β} : Datum.under es name = [d] → codec.read d = some v →
      Given codec es name default v

section Field

variable {codec : Codec β} {InRange : β → Prop} {es : List (String × Datum)} {name : String}
  {get : α → β} {set : β → α → α} {a b : α}

/-- A field is set to what its entry gives, and nothing else is. -/
theorem putFrom_of_iff (kept : set (get a) a = a) :
    Field.putFrom true es a (.of codec name get set) = some b ↔
      ∃ v, Given codec es name (get a) v ∧ set v a = b := by
  unfold Field.putFrom
  constructor
  · intro put
    split at put
    · rename_i none'
      exact ⟨get a, .absent none', kept.trans (Option.some.inj put)⟩
    · rename_i d one
      obtain ⟨v, read, rfl⟩ := Option.map_eq_some_iff.mp put
      exact ⟨v, .present one read, rfl⟩
    · cases put
  · rintro ⟨v, given, rfl⟩
    cases given with
    | absent none' =>
      rw [show Datum.under es (Field.of codec name get set).name = [] from none']
      exact congrArg some kept.symm
    | @present d _ one read =>
      rw [show Datum.under es (Field.of codec name get set).name = [d] from one]
      exact congrArg (Option.map (set · a)) read

/-- The fields of a record are set one after the other. -/
theorem putFields_cons_iff {fields : List (Field α)} (kept : set (get a) a = a) :
    (.of codec name get set :: fields).foldlM (Field.putFrom true es) a = some b ↔
      ∃ v, Given codec es name (get a) v ∧ fields.foldlM (Field.putFrom true es) (set v a) = some b := by
  rw [List.foldlM_cons, Option.bind_eq_bind, Option.bind_eq_some_iff]
  simp only [putFrom_of_iff kept]
  constructor
  · rintro ⟨_, ⟨v, given, rfl⟩, rest⟩
    exact ⟨v, given, rest⟩
  · rintro ⟨v, given, rest⟩
    exact ⟨_, ⟨v, given, rfl⟩, rest⟩

theorem under_entries {fields : List (Field α)} (distinct : (fields.map Field.name).Nodup) {f : Field α}
    (listed : f ∈ fields) (a : α) : Datum.under (Codec.entries fields a) f.name = [f.get a] := by
  induction fields with
  | nil => cases listed
  | cons g fields ih =>
    obtain ⟨new, distinct⟩ := List.nodup_cons.mp distinct
    have others : ∀ f ∈ fields, f.name ≠ g.name := fun f listed same =>
      new (same ▸ List.mem_map_of_mem listed)
    rcases List.mem_cons.mp listed with rfl | listed
    · have nothing : (Codec.entries fields a).filter (fun e => e.1 == f.name) = [] := by
        refine List.filter_eq_nil_iff.mpr fun e written => ?_
        obtain ⟨h, listed, rfl⟩ := List.mem_map.mp written
        simpa using others h listed
      simp only [Codec.entries] at nothing
      simp [Datum.under, Codec.entries, nothing]
    · have elsewhere : (g.name == f.name) = false := beq_false_of_ne (others f listed).symm
      have below := ih distinct listed
      simp only [Datum.under, Codec.entries] at below
      simp [Datum.under, Codec.entries, elsewhere, below]

/-- What was written in a field is given back. -/
theorem Codec.Keeps.given (keeps : codec.Keeps InRange) {fields : List (Field α)}
    (distinct : (fields.map Field.name).Nodup) (i : Nat) (listed : fields[i]? = some (.of codec name get set))
    (inRange : InRange (get a)) (default : β) :
    Given codec (Codec.entries fields a) name default (get a) :=
  .present (under_entries distinct (List.mem_of_getElem? listed) a) (keeps.read_write _ inRange)

/-- What a field keeps that is set to values in range. -/
theorem Codec.Keeps.put_keep (keeps : codec.Keeps InRange) {Inv : α → Prop}
    (keep : ∀ v a, InRange v → Inv a → Inv (set v a)) (d : Datum) (a b : α)
    (put : (Field.of codec name get set).put d a = some b) (kept : Inv a) : Inv b := by
  obtain ⟨v, read, rfl⟩ := Option.map_eq_some_iff.mp put
  exact keep v a (keeps.inRange d v read) kept

/-- What the defaults have and setting each field keeps is true of every value that is read, whichever
of its two forms the record has. -/
theorem Codec.settings_keep {Inv : α → Prop} {fields : List (Field α)} {default : α}
    (keep : ∀ f ∈ fields, ∀ d a b, f.put d a = some b → Inv a → Inv b) (initial : Inv default) (d : Datum)
    (a : α) (read : (settings fields default).read d = some a) : Inv a := by
  cases d with
  | record es =>
    refine foldlM_keep (fun f listed a b put kept => ?_) (show fields.foldlM _ default = some a from read)
      initial
    unfold Field.putFrom at put
    split at put
    · exact Option.some.inj put ▸ kept
    · exact keep f listed _ _ _ put kept
    · cases put
  | list items =>
    obtain ⟨_, read⟩ := Option.ite_none_right_eq_some.mp read
    exact foldlM_keep (fun p listed a b put => keep p.1 (List.of_mem_zip listed).1 _ a b put) read initial
  | _ => cases read

end Field

end ClientMigration
