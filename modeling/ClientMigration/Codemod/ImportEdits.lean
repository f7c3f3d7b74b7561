/-
# Codemod.ImportEdits -- changes to the imports of a module

Three rules. The first two take a legacy name out of its import once all
references to it go, and bring the factory in where some do: into the same
braces if the module is the unified one, else by an import of its own. The last
moves imports of error helpers into the import from the unified module.
-/
import ClientMigration.Text.Blank
import ClientMigration.Text.Edit
import ClientMigration.Codemod.Setting

namespace ClientMigration.Codemod

set_option autoImplicit false

open Script

/-- An import clause with a default and names in braces; none if it would be empty. -/
def clauseText? (default? : Option String) (named : List String) : Option String :=
  let braces := "\x7b " ++ ", ".intercalate named ++ " \x7d"
  match default?, named.isEmpty with
  | none, true => none
  | some d, true => some d
  | none, false => some braces
  | some d, false => some (d ++ ", " ++ braces)

/-- A node with the line break behind it taken out. -/
def deletion (source : Text) (n : Node) : Edit :=
  let rest := (source.dropBytes? n.stop).getD []
  let extra :=
    match rest with
    | '\r' :: '\n' :: _ => 2
    | '\n' :: _ => 1
    | _ => 0
  .delete n.start (n.stop + extra)

/-- A statement with another clause, or without the statement if the clause would be empty. -/
def clauseEdit (source : Text) (statement clause : Node) (text? : Option String) : Edit :=
  match text? with
  | some t => ⟨clause.start, clause.stop, t.toList⟩
  | none => deletion source statement

/-- How the factory comes into a module at one of its imports. -/
inductive FactoryPlace where
  | nowhere
  /-- Among the names in braces. -/
  | within
  /-- By an import of its own in front. -/
  | before
  deriving DecidableEq

/-- The place for the factory at an import of `module`, while it is still `pending`. -/
def factoryPlace (s : Setting) (source : Text) (tree : Node) (pending : Bool) (module : String) :
    FactoryPlace :=
  if !pending || !s.bindings.needsFactory || importsFactory s.config source tree then .nowhere
  else if module == s.config.unifiedModule then .within
  else .before

/-- The edit that brings the factory in by an import of its own. -/
def factoryImport (s : Setting) (statement : Node) : Edit :=
  .insert statement.start
    ("import \x7b " ++ s.config.factoryFunction ++ " \x7d from " ++ s.quoted s.config.unifiedModule
      ++ ";\n").toList

/-- What a rule makes of one import statement; none if it leaves it alone. -/
structure StatementEdits where
  edits : List Edit
  /-- Whether the factory has come in. -/
  placed : Bool

/-- The edits for all statements in turn; the factory comes in at most once. -/
def statementEdits (f : Bool → Node → Option StatementEdits) : Bool → List Node → List Edit
  | _, [] => []
  | pending, n :: ns =>
    match f pending n with
    | none => statementEdits f pending ns
    | some r => r.edits ++ statementEdits f (pending && !r.placed) ns

/-- A legacy import statement: its module and its clause. -/
def legacyImport? (s : Setting) (source : Text) (statement : Node) : Option (String × Node) :=
  if isTypeOnly statement then none
  else
    (importSource? source statement).bind fun module =>
      if s.config.legacyModules.contains module then
        (importClause? statement).map fun clause => (module, clause)
      else none

/-! ## `import client from …` -/

def defaultStatement (s : Setting) (source : Text) (tree : Node) (pending : Bool)
    (statement : Node) : Option StatementEdits :=
  match legacyImport? s source statement with
  | none => none
  | some (module, clause) =>
    if takesNamespace clause then none
    else
      match defaultImport? clause with
      | none => none
      | some default_ =>
        let name := default_.name source
        let drop := s.bindings.isDroppable name
        let place := factoryPlace s source tree pending module
        if !drop && place == .nowhere then none
        else
          let named := ((namedImports? clause).map fun n =>
            (specifiers n).map (·.name source)).getD []
          let named := if place == .within then s.factoryName :: named else named
          let front := if place == .before then [factoryImport s statement] else []
          let kept := if drop then none else some name
          some
            { edits := front ++ [clauseEdit source statement clause (clauseText? kept named)]
              placed := place != .nowhere }

/-- Takes legacy defaults out of their imports. -/
def defaultImportEdits (s : Setting) (tree : Node) (source : Text) : List Edit :=
  statementEdits (defaultStatement s source tree) true (importStatements tree)

/-! ## `import { client, accessor } from …` -/

/-- Whether the name that a specifier gives can go. -/
def dropsSpecifier (s : Setting) (source : Text) (spec : Node) : Bool :=
  !isTypeOnly spec &&
    (specifierNames? source spec).any fun (_, here) => s.bindings.isDroppable here

def namedStatement (s : Setting) (source : Text) (tree : Node) (pending : Bool)
    (statement : Node) : Option StatementEdits :=
  match legacyImport? s source statement with
  | none => none
  | some (module, clause) =>
    match namedImports? clause with
    | none => none
    | some list =>
      let specs := specifiers list
      let kept := (specs.filter (!dropsSpecifier s source ·)).map (·.name source)
      let drops := specs.any (dropsSpecifier s source)
      let place := factoryPlace s source tree pending module
      if !drops && place == .nowhere then none
      else
        -- the factory takes the place of the first name that goes
        let at_ := (specs.takeWhile (!dropsSpecifier s source ·)).length
        let named :=
          if place == .within then kept.take at_ ++ s.factoryName :: kept.drop at_ else kept
        let front := if place == .before then [factoryImport s statement] else []
        let default? := (defaultImport? clause).map (·.name source)
        some
          { edits := front ++ [clauseEdit source statement clause (clauseText? default? named)]
            placed := place != .nowhere }

/-- Takes legacy names out of the braces of their imports. -/
def namedImportEdits (s : Setting) (tree : Node) (source : Text) : List Edit :=
  statementEdits (namedStatement s source tree) true (importStatements tree)

/-! ## Error helpers -/

/-- The braces of the first import from the unified module that has some. -/
def unifiedBraces? (s : Setting) (source : Text) (tree : Node) : Option Node :=
  (importStatements tree).findSome? fun statement =>
    if isTypeOnly statement || importSource? source statement != some s.config.unifiedModule then
      none
    else (importClause? statement).bind namedImports?

/-- The names in braces of an import of error helpers that can move. -/
def errorImport? (s : Setting) (source : Text) (statement : Node) : Option (List Node) :=
  if isTypeOnly statement then none
  else
    match importSource? source statement, importClause? statement with
    | some module, some clause =>
      if !s.config.deprecatedErrorModules.contains module || (defaultImport? clause).isSome ||
        takesNamespace clause then none
      else (namedImports? clause).map specifiers
    | _, _ => none

/-- Names to be moved, after those that are already there. -/
structure Merge where
  present : List String
  moved : List String

def Merge.add (source : Text) (m : Merge) (spec : Node) : Merge :=
  match specifierNames? source spec with
  | none => m
  | some (_, here) =>
    if m.present.contains here then m
    else { present := m.present ++ [here], moved := m.moved ++ [spec.name source] }

/-- The edit that puts names behind the last of those in braces. -/
def appendEdit (source : Text) (braces : Node) (names : List String) : Edit :=
  let list := ", ".intercalate names
  match (specifiers braces).getLast? with
  | none => ⟨braces.start, braces.stop, ("\x7b " ++ list ++ " \x7d").toList⟩
  | some last =>
    let after := (source.dropBytes? last.stop).getD []
    let rest := after.trimLeft
    if rest.startsWith "," then
      .insert (last.stop + (after.bytes - rest.bytes) + 1) (" " ++ list).toList
    else .insert last.stop (", " ++ list).toList

/-- Moves imports of error helpers into the import from the unified module. -/
def errorImportEdits (s : Setting) (tree : Node) (source : Text) : List Edit :=
  match unifiedBraces? s source tree with
  | none => []
  | some braces =>
    let moving := (importStatements tree).filterMap fun statement =>
      (errorImport? s source statement).map fun specs => (statement, specs)
    let present := (specifiers braces).filterMap fun spec =>
      (specifierNames? source spec).map Prod.snd
    let merged := (moving.flatMap Prod.snd).foldl (Merge.add source) ⟨present, []⟩
    let deletions := moving.map fun (statement, _) => deletion source statement
    if merged.moved.isEmpty then deletions
    else deletions ++ [appendEdit source braces merged.moved]

end ClientMigration.Codemod
