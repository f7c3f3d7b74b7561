/-
# Store.File -- a store in a file

The file holds a JSON record of texts. No file and a blank one are an empty
store. Every operation reads the file first, and only a file that could be read is
ever written.
-/
import ClientMigration.Store.Basic
import ClientMigration.Files.Tree
import ClientMigration.Text.Blank
import ClientMigration.Data.Json

namespace ClientMigration.FileStore

set_option autoImplicit false

/-- The table that a file's text holds. -/
def decode (t : Text) : Except StoreFault (Table String) :=
  if (Text.trim t).isEmpty then .ok []
  else
    match (Json.read t).bind (Table.codec .text).read with
    | some entries => .ok entries
    | none => .error .corrupt

/-- The text of a file that holds a table. -/
def encode (entries : Table String) : Text := Json.indented ((Table.codec .text).write entries)

def load (p : Path) (files : Tree) : Except StoreFault (Table String) :=
  match files.read p with
  | .ok t => decode t
  | .error .missing => .ok []
  | .error _ => .error .io

/-- Writes a table, making the directories above the file. -/
def save (p : Path) (entries : Table String) (files : Tree) : Except StoreFault Unit × Tree :=
  match files.makeParents p with
  | .error _ => (.error .io, files)
  | .ok made =>
    match made.write p (encode entries) with
    | .error _ => (.error .io, made)
    | .ok written => (.ok (), written)

def get (p : Path) (key : String) (files : Tree) : Except StoreFault (Option String) × Tree :=
  ((load p files).map (·.find? key), files)

def set (p : Path) (key value : String) (files : Tree) : Except StoreFault Unit × Tree :=
  match load p files with
  | .error e => (.error e, files)
  | .ok entries => save p (entries.insert key value) files

/-- Removes a key; a file without it is not written. -/
def remove (p : Path) (key : String) (files : Tree) : Except StoreFault Unit × Tree :=
  match load p files with
  | .error e => (.error e, files)
  | .ok entries =>
    if (entries.find? key).isSome then save p (entries.erase key) files else (.ok (), files)

/-- The store in the file at a path. -/
def store (p : Path) : Store Tree := ⟨get p, set p, remove p⟩

end ClientMigration.FileStore
