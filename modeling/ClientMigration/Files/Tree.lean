/-
# Files.Tree -- directories and what is in them

A tree is the working directory with all below it; there are no links. A path
leads to a location, the list of names from the working directory down, as far as
every directory on the way exists. Paths that lead out of the working directory
lead nowhere.
-/
import ClientMigration.Path

namespace ClientMigration

set_option autoImplicit false

inductive Content where
  | text (t : Text)
  /-- Bytes that are no text. -/
  | binary (bytes : List UInt8)
  deriving DecidableEq, Repr

/-- What bytes hold: a text if they are its UTF-8 form. -/
def Content.ofBytes (bytes : List UInt8) : Content :=
  match String.fromUTF8? ⟨bytes.toArray⟩ with
  | some s => .text s.toList
  | none => .binary bytes

inductive Tree where
  | file (content : Content)
  | directory (entries : List (String × Tree))
  deriving Repr

/-- Why a file cannot be read or written. -/
inductive FileFault where
  | missing
  /-- A file stands where a directory should. -/
  | notDirectory
  | isDirectory
  | notText
  deriving DecidableEq, Repr

/-- Names from the working directory down. -/
abbrev Location := List String

namespace Tree

def empty : Tree := .directory []

def entries : Tree → List (String × Tree)
  | .directory es => es
  | .file _ => []

def isDirectory : Tree → Bool
  | .directory _ => true
  | .file _ => false

def child? (t : Tree) (name : String) : Option Tree := t.entries.lookup name

/-- What is at a location. -/
def at? (t : Tree) : Location → Option Tree
  | [] => some t
  | name :: rest =>
    match t.child? name with
    | some u => u.at? rest
    | none => none

/-- The entries with `t` under a name, in place of what was there. -/
def setEntry (name : String) (t : Tree) : List (String × Tree) → List (String × Tree)
  | [] => [(name, t)]
  | e :: es => if e.1 == name then (name, t) :: es else e :: setEntry name t es

/-- The tree with `new` at a location; directories on the way are made. -/
def put : Tree → Location → Tree → Tree
  | _, [], new => new
  | t, name :: rest, new =>
    .directory (setEntry name (put ((t.child? name).getD empty) rest new) t.entries)

/-! ## Following paths -/

/-- The location that components lead to from `here`. -/
def follow (root : Tree) : Location → List Path.Component → Except FileFault Location
  | here, [] => .ok here
  | here, c :: cs =>
    match c, root.at? here with
    | _, none => .error .missing
    | _, some (.file _) => .error .notDirectory
    | .here, _ => follow root here cs
    | .root, _ => .error .missing
    | .up, _ => if here.isEmpty then .error .missing else follow root here.dropLast cs
    | .name n, some t =>
      if (t.child? n).isSome then follow root (here ++ [n]) cs else .error .missing

/-- Whether a path can only be a directory's. -/
def namesDirectory (p : Path) : Bool := p.text.endsWith "/" || p.text.endsWith "/."

/-- The location that a path leads to. -/
def locate (root : Tree) (p : Path) : Except FileFault Location :=
  if p.text.isEmpty then .error .missing
  else
    match follow root [] p.components with
    | .error e => .error e
    | .ok loc =>
      if namesDirectory p && !(root.at? loc).any isDirectory then .error .notDirectory else .ok loc

/-- What a path leads to. -/
def find (root : Tree) (p : Path) : Except FileFault Tree :=
  match root.locate p with
  | .error e => .error e
  | .ok loc =>
    match root.at? loc with
    | some t => .ok t
    | none => .error .missing

def pathExists (root : Tree) (p : Path) : Bool :=
  match root.locate p with
  | .ok _ => true
  | .error _ => false

/-! ## Texts -/

/-- The text of a file. -/
def read (root : Tree) (p : Path) : Except FileFault Text :=
  match root.find p with
  | .ok (.file (.text t)) => .ok t
  | .ok (.file (.binary _)) => .error .notText
  | .ok (.directory _) => .error .isDirectory
  | .error e => .error e

/-- The tree with a text in the place of a file, or of nothing in a directory that exists. -/
def write (root : Tree) (p : Path) (t : Text) : Except FileFault Tree :=
  match root.locate p with
  | .ok loc =>
    match root.at? loc with
    | some (.file _) => .ok (root.put loc (.file (.text t)))
    | _ => .error .isDirectory
  | .error .missing =>
    match p.fileName? with
    | none => .error .missing
    | some name =>
      if namesDirectory p then .error .isDirectory
      else
        match follow root [] p.components.dropLast with
        | .error e => .error e
        | .ok loc =>
          match root.at? loc with
          | some (.directory _) => .ok (root.put (loc ++ [name]) (.file (.text t)))
          | _ => .error .notDirectory
  | .error e => .error e

/-- Makes the directories that components lead through from `here`. -/
def makeDirectories (root : Tree) : Location → List Path.Component → Except FileFault Tree
  | _, [] => .ok root
  | here, c :: cs =>
    match c with
    | .here => makeDirectories root here cs
    | .root => .error .missing
    | .up => if here.isEmpty then .error .missing else makeDirectories root here.dropLast cs
    | .name n =>
      match root.at? (here ++ [n]) with
      | some (.file _) => .error .notDirectory
      | some (.directory _) => makeDirectories root (here ++ [n]) cs
      | none => makeDirectories (root.put (here ++ [n]) empty) (here ++ [n]) cs

/-- The tree with the directories above a path. -/
def makeParents (root : Tree) (p : Path) : Except FileFault Tree :=
  makeDirectories root [] p.components.dropLast

/-! ## What a tree holds -/

mutual

/-- The text files with their locations. -/
def texts : Tree → List (Location × Text)
  | .file (.text t) => [([], t)]
  | .file (.binary _) => []
  | .directory es => textsAmong es

def textsAmong : List (String × Tree) → List (Location × Text)
  | [] => []
  | (name, t) :: es => t.texts.map (fun e => (name :: e.1, e.2)) ++ textsAmong es

end

/-- Whether a location holds a text. -/
def holds (t : Tree) (loc : Location) (text : Text) : Bool :=
  match t.at? loc with
  | some (.file (.text u)) => u == text
  | _ => false

/-- The texts of a tree that are not in the tree before it. -/
def changes (old new : Tree) : List (Location × Text) := new.texts.filter fun e => !old.holds e.1 e.2

end Tree

end ClientMigration
