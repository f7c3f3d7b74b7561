/-
# Path -- names of files

A path is its written form. Its components are what stands between the slashes,
with repeated slashes and points that change nothing left out; names, endings
and the order of paths are defined on components.
-/
import ClientMigration.Text.Basic

namespace ClientMigration

set_option autoImplicit false

/-- A path as it is written. -/
structure Path where
  text : String
  deriving DecidableEq, Repr

namespace Path

inductive Component where
  | root
  /-- A point at the very beginning. -/
  | here
  /-- Two points: one directory up. -/
  | up
  | name (text : String)
  deriving DecidableEq, Repr

/-- The pieces of a text between slashes. -/
def pieces : Text → List Text
  | [] => [[]]
  | c :: t =>
    if c == '/' then [] :: pieces t
    else match pieces t with
      | [] => [[c]]
      | p :: ps => (c :: p) :: ps

def ofPiece (p : Text) : Option Component :=
  if p == [] || p == ['.'] then none
  else if p == ['.', '.'] then some .up
  else some (.name (String.ofList p))

def components (p : Path) : List Component :=
  match pieces p.text.toList with
  | [] => []
  | first :: rest =>
    let head : List Component :=
      if first == [] then (if rest.isEmpty then [] else [.root])
      else if first == ['.'] then [.here]
      else (ofPiece first).toList
    head ++ rest.filterMap ofPiece

/-- The names on the way to the file, without its own. -/
def directories (p : Path) : List String :=
  p.components.dropLast.filterMap fun
    | .name s => some s
    | _ => none

/-- All names in the path. -/
def names (p : Path) : List String :=
  p.components.filterMap fun
    | .name s => some s
    | _ => none

def fileName? (p : Path) : Option String :=
  match p.components.getLast? with
  | some (.name s) => some s
  | _ => none

/-- A file name before and after its last point. A name with no point, or with only one in front,
has no second part. -/
def splitName (s : String) : String × Option String :=
  let t := s.toList.reverse
  let ending := t.takeWhile (· != '.')
  match t.drop ending.length with
  | [] => (s, none)
  | [_] => (s, none)
  | _ :: stem => (String.ofList stem.reverse, some (String.ofList ending.reverse))

/-- The file name without its ending. -/
def stem? (p : Path) : Option String := p.fileName?.map fun s => (splitName s).1

/-- What follows the last point of the file name. -/
def ending? (p : Path) : Option String := p.fileName?.bind fun s => (splitName s).2

/-- The path of `name` in the directory `p`. -/
def join (p : Path) (name : String) : Path :=
  if p.text.isEmpty then ⟨name⟩
  else if p.text.endsWith "/" then ⟨p.text ++ name⟩
  else ⟨p.text ++ "/" ++ name⟩

/-! ## Order -/

namespace Component

def rank : Component → Nat
  | .root => 0
  | .here => 1
  | .up => 2
  | .name _ => 3

/-- Roots come first, then the directory itself, the one above, and names by their characters. -/
def compare : Component → Component → Ordering
  | .name a, .name b => Ord.compare a b
  | a, b => Ord.compare a.rank b.rank

end Component

def compareComponents : List Component → List Component → Ordering
  | [], [] => .eq
  | [], _ :: _ => .lt
  | _ :: _, [] => .gt
  | a :: as, b :: bs => (a.compare b).then (compareComponents as bs)

/-- Paths are ordered by their components. -/
def compare (p q : Path) : Ordering := compareComponents p.components q.components

end Path

end ClientMigration
