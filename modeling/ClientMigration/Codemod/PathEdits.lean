/-
# Codemod.PathEdits -- versioned paths in the literals of a module

Strings and templates that begin with a version lose it, except for the names of
modules and the attributes of markup. Nothing inside a literal is looked at
again.
-/
import ClientMigration.Text.Edit
import ClientMigration.Codemod.VersionPrefix
import ClientMigration.Codemod.Import

namespace ClientMigration.Codemod

set_option autoImplicit false

open Script

def isLiteral (n : Node) : Bool := n.kind == .string || n.kind == .templateString

/-- Walks stop at imports, at attributes and at literals. -/
def entersForPaths (n : Node) : Bool :=
  !(n.kind == .importStatement || n.kind == .markupAttribute || isLiteral n)

/-- Whether a literal names the module that an export passes on. -/
def namesModule (p : Place) : Bool :=
  p.parent?.any (·.kind == .exportStatement) && p.node.plays .source

/-- The literal without its versions, if it has some. -/
def literalEdit? (source : Text) (n : Node) : Option Edit :=
  let raw := n.text source
  match raw.head? with
  | none => none
  | some quote =>
    if raw.bytes < 2 || raw.getLast? != some quote then none
    else
      (stripVersions? ((raw.drop 1).dropLast)).map fun path =>
        ⟨n.start, n.stop, quote :: path ++ [quote]⟩

/-- Whether the versions in a file go. -/
def inPathScope (config : Config) (source : Text) (tree : Node) : Bool :=
  match config.prefixScope with
  | .allFiles => true
  | .migratedFiles => importsFactory config source tree

/-- Takes the versions off the paths in a module's literals. -/
def pathEdits (config : Config) (tree : Node) (source : Text) : List Edit :=
  if inPathScope config source tree then
    (tree.places entersForPaths []).filterMap fun p =>
      if isLiteral p.node && !namesModule p then literalEdit? source p.node else none
  else []

end ClientMigration.Codemod
