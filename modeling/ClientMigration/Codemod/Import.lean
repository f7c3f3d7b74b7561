/-
# Codemod.Import -- the imports at the head of a module
-/
import ClientMigration.Script.Node
import ClientMigration.Codemod.Config

namespace ClientMigration.Codemod

set_option autoImplicit false

open Script

/-- The import statements of a module, first to last. -/
def importStatements (tree : Node) : List Node :=
  tree.children.filter (·.kind == .importStatement)

/-- Whether a statement or one of its names is for types alone. -/
def isTypeOnly (n : Node) : Bool := n.hasToken "type"

/-- What stands between the quotes of a string. -/
def unquoted (t : Text) : Text := if t.bytes ≥ 2 then (t.drop 1).dropLast else t

/-- The module that an import names. -/
def importSource? (source : Text) (statement : Node) : Option String :=
  (statement.child? .source).map fun s => String.ofList (unquoted (s.text source))

def importClause? (statement : Node) : Option Node :=
  statement.namedChildren.find? (·.kind == .importClause)

/-- Whether a clause takes a module as a whole. -/
def takesNamespace (clause : Node) : Bool := clause.namedChildren.any (·.kind == .namespaceImport)

def namedImports? (clause : Node) : Option Node :=
  clause.namedChildren.find? (·.kind == .namedImports)

/-- The name that a clause gives to a module's default. -/
def defaultImport? (clause : Node) : Option Node :=
  clause.namedChildren.find? (·.kind == .identifier)

def specifiers (named : Node) : List Node :=
  named.namedChildren.filter (·.kind == .importSpecifier)

/-- What a specifier takes, and what it is called here. -/
def specifierNames? (source : Text) (spec : Node) : Option (String × String) :=
  (spec.child? .name).map fun n =>
    let there := n.name source
    (there, ((spec.child? .alias).map (·.name source)).getD there)

/-- Whether some import takes the factory. -/
def importsFactory (config : Config) (source : Text) (tree : Node) : Bool :=
  (importStatements tree).any fun statement =>
    !isTypeOnly statement &&
      ((importClause? statement).bind namedImports?).any fun named =>
        (specifiers named).any fun spec =>
          !isTypeOnly spec &&
            (specifierNames? source spec).any fun (there, _) => there == config.factoryFunction

end ClientMigration.Codemod
