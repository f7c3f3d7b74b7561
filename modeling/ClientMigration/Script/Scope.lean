/-
# Script.Scope -- which names a scope declares

Functions declare their parameters and, where they are values, their own names;
blocks declare the variables, functions and classes among their statements;
catch clauses and loops declare what stands in their heads. A place is shadowed
in its name if a scope above it declares that name.
-/
import ClientMigration.Script.Node

namespace ClientMigration.Script

set_option autoImplicit false

namespace Node

mutual

/-- Whether a pattern binds `name`. -/
def binds (source : Text) (name : String) : Node → Bool
  | .mk .identifier r a b cs => Node.name source (.mk .identifier r a b cs) == name
  | .mk .shorthandPropertyIdentifierPattern r a b cs =>
    Node.name source (.mk .shorthandPropertyIdentifierPattern r a b cs) == name
  | .mk .requiredParameter _ _ _ cs => bindsAt source name .pattern cs
  | .mk .optionalParameter _ _ _ cs => bindsAt source name .pattern cs
  | .mk .pairPattern _ _ _ cs => bindsAt source name .value cs
  | .mk .assignmentPattern _ _ _ cs => bindsAt source name .left cs
  | .mk .objectAssignmentPattern _ _ _ cs => bindsAt source name .left cs
  | .mk .formalParameters _ _ _ cs => bindsAmong source name cs
  | .mk .objectPattern _ _ _ cs => bindsAmong source name cs
  | .mk .arrayPattern _ _ _ cs => bindsAmong source name cs
  | .mk .restPattern _ _ _ cs => bindsAmong source name cs
  | _ => false

/-- Whether the first of the nodes that plays `r` binds `name`. -/
def bindsAt (source : Text) (name : String) (r : Role) : List Node → Bool
  | [] => false
  | n :: ns => if n.role == some r then n.binds source name else bindsAt source name r ns

/-- Whether one of the nodes binds `name`. -/
def bindsAmong (source : Text) (name : String) : List Node → Bool
  | [] => false
  | n :: ns => n.binds source name || bindsAmong source name ns

end

/-- Whether a statement declares `name` for the block it stands in. -/
def declaresInBlock (source : Text) (name : String) (n : Node) : Bool :=
  match n.kind with
  | .lexicalDeclaration | .variableDeclaration =>
    n.namedChildren.any fun d =>
      d.kind == .variableDeclarator && (d.child? .name).any (·.binds source name)
  | .functionDeclaration | .generatorFunctionDeclaration | .classDeclaration =>
    (n.child? .name).any (·.name source == name)
  | _ => false

/-- Whether the name of a function that is a value is known inside it. -/
def namesItself (source : Text) (name : String) (n : Node) : Bool :=
  (n.kind == .functionExpression || n.kind == .generatorFunction) &&
    (n.child? .name).any (·.name source == name)

/-- What a function is given: its parameters, or its only one. -/
def parameters? (n : Node) : Option Node := (n.child? .parameters).orElse fun _ => n.child? .parameter

/-- Whether the scope that a node opens declares `name`. -/
def declares (source : Text) (name : String) (n : Node) : Bool :=
  if n.kind.isFunction then
    n.namesItself source name || n.parameters?.any (·.binds source name)
  else
    match n.kind with
    | .statementBlock => n.namedChildren.any (·.declaresInBlock source name)
    | .catchClause => (n.child? .parameter).any (·.binds source name)
    | .forStatement => (n.child? .initializer).any (·.declaresInBlock source name)
    | .forInStatement =>
      (n.hasToken "const" || n.hasToken "let" || n.hasToken "var") &&
        (n.child? .left).any (·.binds source name)
    | _ => false

end Node

/-- Whether the name at a place is declared again between there and the module's own scope. -/
def Place.isShadowed (source : Text) (p : Place) : Bool :=
  p.above.any (·.declares source (p.node.name source))

end ClientMigration.Script
