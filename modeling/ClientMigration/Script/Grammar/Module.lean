/-
# Script.Grammar.Module -- whole modules

Ties the knot of the grammar and reads a module to its end. The depth to which
forms may nest is computed from the length of the text, so that no text runs
out of it: every form nested in another takes at least one character of its own
within a fixed number of levels.

Comments are read on the way and put into the finished tree last, each into the
smallest node around it. Where the text is no module, what is left of the reading
is how far it came.
-/
import ClientMigration.Script.Grammar.Markup
import ClientMigration.Script.Grammar.Statement

namespace ClientMigration.Script

set_option autoImplicit false

namespace Grammar

open Grammar.Parser

/-- One form over the forms inside it. -/
def Rules.form (g : Rules) : Form → Parser Node
  | .statement => g.statementForm
  | .expression typedArrows => g.expressionForm typedArrows
  | .operand => g.operandForm
  | .reference => g.reference
  | .construction => g.construction
  | .pattern => g.pattern
  | .type => g.conditionalType
  | .typeOperand => g.typeOperand
  | .element => g.elementForm

/-- The grammar to a depth of nesting. -/
def rules (markup : Bool) : Nat → Rules
  | 0 => { read := fun _ => absent, markup, limit := 0 }
  | n + 1 => { read := fun f => ⟨fun c => ((rules markup n).form f).run c⟩, markup, limit := n }

/-- A line at the head of a module that says what runs it. -/
def hashBang : Parser Node := ⟨fun c =>
  if c.pos == 0 && c.rest.startsWith "#!" then
    let line := c.rest.takeWhile (!isLineEnd ·)
    (leaf .hashBang line (c.rest.drop line.length)).run c
  else .absent c.far⟩

def module (g : Rules) : Parser Node := do
  let children ← inOrder [optional hashBang, repeated g.limit (g.read .statement)]
  let c ← skipped
  if c.rest.isEmpty then return .mk .program none 0 c.pos children
  else must absent

end Grammar

namespace Node

mutual

/-- `n` with a comment put where it belongs: below the child that covers it, or else between
children. -/
def withComment (comment : Node) : Node → Node
  | .mk k r a b cs => .mk k r a b (placeComment comment cs)

def placeComment (comment : Node) : List Node → List Node
  | [] => [comment]
  | n :: ns =>
    if n.start ≤ comment.start && comment.stop ≤ n.stop then withComment comment n :: ns
    else if comment.stop ≤ n.start then comment :: n :: ns
    else n :: placeComment comment ns

end

end Node

/-- A reader of modules, with embedded markup or without. -/
def Grammar.start (markup : Bool) (source : Text) : Grammar.Rules × Grammar.Cursor :=
  (Grammar.rules markup (64 * source.length + 64),
   { rest := source, pos := 0, stop := 0, comments := [], breakable := true, far := 0 })

/-- The syntax tree of a module, or else how far it can be read. -/
def read (markup : Bool) (source : Text) : Except Nat Node :=
  let (g, c) := Grammar.start markup source
  match (Grammar.module g).run c with
  | .found tree c => .ok (c.comments.reverse.foldl (fun t comment => Node.withComment comment t) tree)
  | .absent far => .error far
  | .broken far => .error far

end ClientMigration.Script
