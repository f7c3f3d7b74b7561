/-
# Script.Node -- syntax trees

A `Node` is a kind, the bytes it covers, the part it plays in the node above it
and its children from left to right. Nothing here asks whether a tree is one
that a module could have: that is `Node.WellFormed`, kept apart from the data.

A `Place` is a node together with the nodes above it, nearest first. `places`
lists the places of a tree from the top down and from left to right; a walk
that skips some subtrees is `places` with a test that says where to go down.
-/
import ClientMigration.Text.Basic
import ClientMigration.Script.Kind

namespace ClientMigration.Script

set_option autoImplicit false

inductive Node where
  | mk (kind : Kind) (role : Option Role) (start stop : Nat) (children : List Node)
  deriving Repr

namespace Node

mutual

def decideEq : (m n : Node) → Decidable (m = n)
  | .mk k r a b cs, .mk k' r' a' b' cs' =>
    have := decideEqIn cs cs'
    decidable_of_iff (k = k' ∧ r = r' ∧ a = a' ∧ b = b' ∧ cs = cs') (by rw [mk.injEq])

def decideEqIn : (ms ns : List Node) → Decidable (ms = ns)
  | [], [] => .isTrue rfl
  | [], n :: ns => .isFalse (List.cons_ne_nil n ns).symm
  | m :: ms, [] => .isFalse (List.cons_ne_nil m ms)
  | m :: ms, n :: ns =>
    have := decideEq m n
    have := decideEqIn ms ns
    decidable_of_iff (m = n ∧ ms = ns) (by rw [List.cons.injEq])

end

instance : DecidableEq Node := decideEq

def kind : Node → Kind
  | .mk k _ _ _ _ => k

def role : Node → Option Role
  | .mk _ r _ _ _ => r

def start : Node → Nat
  | .mk _ _ s _ _ => s

def stop : Node → Nat
  | .mk _ _ _ s _ => s

def children : Node → List Node
  | .mk _ _ _ _ cs => cs

def isNamed (n : Node) : Bool := n.kind.isNamed

/-- The same node in another part. -/
def playing (r : Role) : Node → Node
  | .mk k _ a b cs => .mk k (some r) a b cs

/-- The same node as another kind. -/
def retag (k : Kind) : Node → Node
  | .mk _ r a b cs => .mk k r a b cs

def namedChildren (n : Node) : List Node := n.children.filter isNamed

/-- The first child that plays `r`. -/
def child? (n : Node) (r : Role) : Option Node := n.children.find? (·.role == some r)

/-- Whether the node plays `r` where it stands. -/
def plays (n : Node) (r : Role) : Bool := n.role == some r

/-- The source text that the node covers. -/
def text (source : Text) (n : Node) : Text := source.slice n.start n.stop

/-- The name that the node spells. -/
def name (source : Text) (n : Node) : String := String.ofList (n.text source)

/-- Whether some child is the bare word or mark `w`. -/
def hasToken (n : Node) (w : String) : Bool := n.children.any (·.kind == .token w)

mutual

/-- Children lie inside their parent, in order and apart, and no two of them play one part. A word
has a character at least, and no children. -/
def WellFormed : Node → Prop
  | .mk k _ a b cs => a ≤ b ∧ (k.isWord → a < b ∧ cs = []) ∧ WellFormedFrom a b cs ∧
      (cs.filterMap role).Nodup

/-- The nodes lie between two offsets, in order and apart. -/
def WellFormedFrom (lo hi : Nat) : List Node → Prop
  | [] => lo ≤ hi
  | n :: ns => lo ≤ n.start ∧ n.WellFormed ∧ WellFormedFrom n.stop hi ns

end

mutual

def decideWellFormed : (n : Node) → Decidable n.WellFormed
  | .mk k _ a b cs =>
    have := decideWellFormedFrom a b cs
    inferInstanceAs (Decidable (a ≤ b ∧ (k.isWord → a < b ∧ cs = []) ∧ WellFormedFrom a b cs ∧
      (cs.filterMap role).Nodup))

def decideWellFormedFrom (lo hi : Nat) : (ns : List Node) → Decidable (WellFormedFrom lo hi ns)
  | [] => inferInstanceAs (Decidable (lo ≤ hi))
  | n :: ns =>
    have := decideWellFormed n
    have := decideWellFormedFrom n.stop hi ns
    inferInstanceAs (Decidable (lo ≤ n.start ∧ n.WellFormed ∧ WellFormedFrom n.stop hi ns))

end

instance (n : Node) : Decidable n.WellFormed := decideWellFormed n

end Node

/-- A node of a tree and the nodes above it, nearest first. -/
structure Place where
  node : Node
  above : List Node

namespace Place

def parent? (p : Place) : Option Node := p.above.head?

/-- The nearest function whose code the place belongs to. -/
def function? (p : Place) : Option Node := p.above.find? (·.kind.isFunction)

end Place

namespace Node

mutual

/-- The places from `n` down, parents first, left to right, going below a node
only where `enter` holds of it. -/
def places (enter : Node → Bool) (above : List Node) : Node → List Place
  | .mk k r a b cs =>
    let n := .mk k r a b cs
    ⟨n, above⟩ :: if enter n then placesIn enter (n :: above) cs else []

def placesIn (enter : Node → Bool) (above : List Node) : List Node → List Place
  | [] => []
  | n :: ns => places enter above n ++ placesIn enter above ns

end

end Node

end ClientMigration.Script
