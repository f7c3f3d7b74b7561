/-
# Data.Codec -- values as data

A codec reads a value out of a datum and writes it into one. Records are
described by their fields. A field says how to take its part from a value and how
to set it, so that one list of fields gives both directions.

A record may also be read from the list of its fields' values in order. Entries
under unknown names do not matter; two entries under the name of a field are
refused.
-/
import ClientMigration.Data.Datum

namespace ClientMigration

set_option autoImplicit false

structure Codec (α : Type) where
  read : Datum → Option α
  write : α → Datum

namespace Codec

def boolean : Codec Bool where
  read
    | .boolean b => some b
    | _ => none
  write := .boolean

/-- Whole numbers of so many bits, without a sign. -/
def unsigned (bits : Nat) : Codec Nat where
  read
    | .whole n => if 0 ≤ n && n < Nat.pow 2 bits then some n.toNat else none
    | _ => none
  write n := .whole n

/-- Floating-point numbers, written with all of their digits. -/
def float : Codec Float where
  read := Datum.float?
  write := Datum.ofFloat

def text : Codec String where
  read
    | .text s => some s
    | _ => none
  write := .text

def list {α : Type} (item : Codec α) : Codec (List α) where
  read
    | .list items => items.mapM item.read
    | _ => none
  write xs := .list (xs.map item.write)

/-- A value or nothing. -/
def optional {α : Type} (value : Codec α) : Codec (Option α) where
  read
    | .null => some none
    | d => (value.read d).map some
  write
    | none => .null
    | some x => value.write x

/-- A member of a closed set by its exact name, or by a record with the name alone. -/
def member {α : Type} (all : List α) (name : α → String) : Codec α where
  read
    | .text s => all.find? (name · == s)
    | .record [(s, .null)] => all.find? (name · == s)
    | _ => none
  write x := .text (name x)

end Codec

/-- One field of a record. -/
structure Field (α : Type) where
  name : String
  /-- Sets the field to what a datum holds. -/
  put : Datum → α → Option α
  /-- The field's datum. -/
  get : α → Datum

namespace Field

def of {α β : Type} (codec : Codec β) (name : String) (get : α → β) (set : β → α → α) : Field α where
  name := name
  put d a := (codec.read d).map (set · a)
  get a := codec.write (get a)

/-- Sets a field to its only entry. `absent` tells whether it may have none. -/
def putFrom {α : Type} (absent : Bool) (entries : List (String × Datum)) (a : α) (f : Field α) :
    Option α :=
  match Datum.under entries f.name with
  | [] => if absent then some a else none
  | [d] => f.put d a
  | _ => none

end Field

namespace Codec

/-- The entries of a record. -/
def entries {α : Type} (fields : List (Field α)) (a : α) : List (String × Datum) :=
  fields.map fun f => (f.name, f.get a)

/-- Sets the fields of `start` to what a datum holds; with `absent`, fields without a value stay. -/
def readFields {α : Type} (fields : List (Field α)) (absent : Bool) (start : α) : Datum → Option α
  | .record es => fields.foldlM (Field.putFrom absent es) start
  | .list items =>
    if items.length ≤ fields.length && (absent || items.length == fields.length) then
      (fields.zip items).foldlM (fun a p => p.1.put p.2 a) start
    else none
  | _ => none

/-- Records whose fields have defaults. -/
def settings {α : Type} (fields : List (Field α)) (default : α) : Codec α where
  read := readFields fields true default
  write a := .record (entries fields a)

/-- Records with all of their fields. `start` only holds the places that the fields fill. -/
def complete {α : Type} (fields : List (Field α)) (start : α) : Codec α where
  read := readFields fields false start
  write a := .record (entries fields a)

end Codec

end ClientMigration
