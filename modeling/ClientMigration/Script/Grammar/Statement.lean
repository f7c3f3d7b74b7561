/-
# Script.Grammar.Statement -- statements and declarations

What a module is made of. The first word or mark of a statement says which form
it is, except for the words that are keywords only in front of certain others;
those forms are tried before a plain expression.
-/
import ClientMigration.Script.Grammar.Expression

namespace ClientMigration.Script.Grammar.Rules

set_option autoImplicit false

open Grammar.Parser

variable (g : Rules)

def statement : Parser Node := g.read .statement

/-- A condition in parentheses. -/
def condition : Parser Node := g.parenthesized.as .condition

def expressionStatement : Parser Node :=
  node .expressionStatement [g.sequence, must semicolon]

/-! ## Variables -/

def variableDeclarator : Parser Node := do
  let name ← g.binding
  node .variableDeclarator
    [pure [name.playing .name],
     optional (inOrder [markBefore "=" "!", ahead (mark ":") *> Parser.pure []]),
     optional g.typed,
     optional (inOrder [markBefore "=>" "=", must (g.expression.as .value)])]

/-- A declaration of variables without its end. -/
def variableList : Parts :=
  inOrder
    [words ["const", "let", "var"], separated g.limit (mark ",") g.variableDeclarator]

def declarationKind (parts : List Node) : Kind :=
  if parts.any (·.kind == .token "var") then .variableDeclaration else .lexicalDeclaration

/-- Whether the last of the variables is given a value. -/
def endsInValue (parts : List Node) : Bool :=
  (parts.getLast?.bind (·.child? .value)).isSome

def variableStatement : Parser Node := do
  let parts ← must g.variableList
  node (declarationKind parts) [pure parts, must (semicolonAfter (endsInValue parts))]

/-! ## Control -/

def ifStatement : Parser Node :=
  node .ifStatement
    [word "if", must g.condition, must (g.statement.as .consequence),
     optional (node .elseClause [word "else", must g.statement])]

/-- Statements up to the next case or the end of them all. -/
def caseBody : Parts :=
  repeated g.limit (do
    let w ← peekWord
    if w == "case" || w == "default" then absent else g.statement)

def switchStatement : Parser Node :=
  node .switchStatement
    [word "switch", must (g.parenthesized.as .value),
     must (node .switchBody
      [mark "\x7b",
       breakable true (repeated g.limit (oneOf
        [node .switchCase
          [word "case", must (g.sequence.as .value), must (mark ":"), g.caseBody],
         node .switchDefault [word "default", must (mark ":"), g.caseBody]])),
       must (mark "\x7d")])]

/-- What a loop over the parts of something takes them from and calls them. -/
def loopHead : Parts :=
  enclosed "(" ")" (inOrder
    [oneOf
      [inOrder
        [words ["const", "let", "var"], g.binding.as .left,
         optional (inOrder [markBefore "=>" "=", g.expression]), ahead loopWord *> Parser.pure []],
       oneOf [g.target.as .left, g.parenthesized.as .left]],
     loopWord, g.sequence.as .right])
where
  loopWord : Parser Node := (words ["in", "of"]).as .operator

def emptyPart : Parser Node := node .emptyStatement [mark ";"]

def countHead : Parts :=
  enclosed "(" ")" (inOrder
    [oneOf
      [emptyPart.as .initializer,
       (do let parts ← attempt g.variableList
           node (declarationKind parts) [pure parts, mark ";"]).as .initializer,
       inOrder [g.sequence.as .initializer, mark ";"]],
     oneOf [emptyPart.as .condition, inOrder [g.sequence.as .condition, mark ";"]],
     optional (g.sequence.as .increment)])

def forStatement : Parser Node := do
  let front ← word "for"
  let wait ← optional (word "await")
  oneOf
    [do
      let head ← attempt g.loopHead
      node .forInStatement [pure (front :: wait ++ head), must (g.statement.as .body)],
     node .forStatement [pure [front], must g.countHead, must (g.statement.as .body)]]

def tryStatement : Parser Node :=
  node .tryStatement
    [word "try", must (g.block.as .body),
     optional ((node .catchClause
      [word "catch",
       optional (enclosed "(" ")" (inOrder [g.binding.as .parameter, optional g.typed])),
       must (g.block.as .body)]).as .handler),
     optional ((node .finallyClause [word "finally", must (g.block.as .body)]).as .finalizer)]

/-- A jump: its word, and where it goes or what it gives if that follows on the line. -/
def jump (k : Kind) (w : String) (what : Parser Node) : Parser Node := do
  let front ← word w
  oneOf
    [node k [pure [front], semicolonAfter false],
     node k [pure [front], must what, must semicolon]]

/-! ## Declarations of types and modules -/

def interfaceDeclaration : Parser Node :=
  node .interfaceDeclaration
    [word "interface", (anyName .typeIdentifier).as .name,
     optional (g.typeParameters.as .type),
     optional (node .extendsClause [word "extends", separated g.limit (mark ",") g.namedType]),
     g.objectType.as .body, optional (lineEnd false)]

def typeAliasDeclaration : Parser Node := do
  let head ← attempt (inOrder
    [word "type", (anyName .typeIdentifier).as .name, optional (g.typeParameters.as .type),
     markBefore "=>" "="])
  node .typeAliasDeclaration
    [pure head, must (g.type.as .value), must (semicolonAfter false)]

def enumDeclaration : Parser Node :=
  node .enumDeclaration
    [optional (word "const"), word "enum", (anyName .identifier).as .name,
     must ((node .enumBody [enclosed "\x7b" "\x7d" (g.commaList (do
       let name ← g.propertyName.as .name
       oneOf
        [node .enumAssignment [pure [name], mark "=", must (g.expression.as .value)],
         return name]))]).as .body),
     optional (lineEnd false)]

/-- The name of a module or namespace: a string, or names with points between them. -/
def moduleName : Parser Node := do
  let rec climb : Nat → Node → Parser Node
    | 0, n => return n
    | k + 1, n =>
      oneOf
        [do let n' ← node .nestedIdentifier
              [pure [n.playing .object], mark ".", (anyName .propertyIdentifier).as .property]
            climb k n',
         return n]
  oneOf [string, do climb g.limit (← anyName .identifier)]

def moduleDeclaration (k : Kind) (w : String) : Parser Node := do
  let head ← attempt (inOrder [word w, g.moduleName.as .name, ahead (mark "\x7b") *> Parser.pure []])
  node k [pure head, must (g.block.as .body)]

/-- A module named without its content. -/
def namedModule : Parser Node :=
  node .moduleDeclaration [word "module", string.as .name, semicolonAfter false]

def classDeclaration (front : List Node) : Parser Node := do
  let w ← peekWord
  if w == "abstract" then
    let first ← word "abstract"
    g.classOf .abstractClassDeclaration (front ++ [first]) className (g.read .reference)
  else g.classOf .classDeclaration front className (g.read .reference)

/-- A class under its decorators. -/
def decoratedClass : Parser Node := do g.classDeclaration (← repeated g.limit g.decorator)

/-- A declaration that begins with the word `w`. -/
def declarationOf (w : String) : Parser Node :=
  match w with
  | "function" => g.functionDeclaration
  | "async" => g.functionDeclaration
  | "class" => g.classDeclaration []
  | "abstract" => g.classDeclaration []
  | "const" => oneOf [g.enumDeclaration, g.variableStatement]
  | "let" => g.variableStatement
  | "var" => g.variableStatement
  | "enum" => g.enumDeclaration
  | "interface" => g.interfaceDeclaration
  | "type" => g.typeAliasDeclaration
  | "namespace" => g.moduleDeclaration .namespaceDeclaration "namespace"
  | "module" => oneOf [g.moduleDeclaration .moduleDeclaration "module", namedModule]
  | _ => absent

/-- A declaration of something that exists elsewhere. -/
def ambientDeclaration : Parser Node :=
  node .ambientDeclaration
    [word "declare",
     oneOf [inOrder [word "global", g.block.as .body], do g.declarationOf (← peekWord)]]

/-- A declaration that may be exported. -/
def declaration : Parser Node := do
  if (← peekChar) == some '@' then g.decoratedClass
  else
    match ← peekWord with
    | "declare" => g.ambientDeclaration
    | w => g.declarationOf w

/-! ## Imports and exports -/

def fromClause : Parts :=
  inOrder
    [word "from", string.as .source,
     optional (node .importAttribute [words ["with", "assert"], g.object])]

/-- What a module calls a thing it gives or takes. -/
def moduleExportName : Parser Node := oneOf [anyName .identifier, string]

/-- One name in braces: what it is there, and perhaps what it is here. -/
def specifier (k : Kind) (there here : Parser Node) : Parser Node :=
  oneOf
    [attempt (node k
      [word "type", notAhead (oneOf [word "as" *> marks [",", "\x7d"], marks [",", "\x7d"]]) *> named]),
     node k [named]]
where
  named : Parts :=
    oneOf
      [attempt (inOrder [there.as .name, word "as", here.as .alias]), there.as .name]

def namedImports : Parser Node :=
  node .namedImports
    [enclosed "\x7b" "\x7d" (g.commaList
      (specifier .importSpecifier moduleExportName (anyName .identifier)))]

def namespaceImport : Parser Node :=
  node .namespaceImport [mark "*", word "as", anyName .identifier]

def importClause : Parser Node :=
  node .importClause
    [oneOf
      [namespaceImport, g.namedImports,
       inOrder
        [anyName .identifier,
         optional (inOrder [mark ",", oneOf [namespaceImport, g.namedImports]])]]]

def importStatement : Parser Node := do
  let front ← word "import"
  oneOf
    [attempt (node .importStatement
      [pure [front], words ["type", "typeof"], g.importClause, g.fromClause, semicolonAfter false]),
     attempt (node .importStatement [pure [front], g.importClause, g.fromClause, semicolonAfter false]),
     attempt (node .importStatement
      [pure [front], optional (word "type"), node .importRequireClause
        [anyName .identifier, mark "=", word "require",
         enclosed "(" ")" (string.as .source)], semicolonAfter false]),
     attempt (node .importAlias
      [pure [front], anyName .identifier, mark "=", g.moduleName, semicolonAfter false]),
     must (node .importStatement
      [pure [front], string.as .source,
       optional (node .importAttribute [words ["with", "assert"], g.object]),
       semicolonAfter false])]

def exportClause : Parser Node :=
  node .exportClause
    [enclosed "\x7b" "\x7d" (g.commaList
      (specifier .exportSpecifier moduleExportName moduleExportName))]

def exportStatement (decorators : List Node) : Parser Node := do
  let front ← word "export"
  let head := decorators ++ [front]
  oneOf
    [node .exportStatement
      [pure head, optional (word "type"), mark "*",
       optional (node .namespaceExport [word "as", moduleExportName]), must g.fromClause,
       must (semicolonAfter false)],
     attempt (node .exportStatement
      [pure head, optional (word "type"), g.exportClause, optional g.fromClause,
       semicolonAfter false]),
     do
      let word_ ← word "default"
      oneOf
        [node .exportStatement
          [pure (head ++ [word_]), (attempt defaultDeclaration).as .declaration],
         node .exportStatement
          [pure (head ++ [word_]), must (g.expression.as .value), must semicolon]],
     node .exportStatement [pure head, mark "=", must g.expression, must semicolon],
     attempt (node .exportStatement
      [pure head, word "as", word "namespace", anyName .identifier, semicolonAfter false]),
     do ahead (word "import")
        node .exportStatement [pure head, g.importStatement],
     node .exportStatement [pure head, must (g.declaration.as .declaration)]]
where
  /-- A declaration that may be a module's default. -/
  defaultDeclaration : Parser Node := do
    let w ← peekWord
    if (← peekChar) == some '@' then g.decoratedClass
    else if ["function", "async", "class", "abstract", "interface", "enum"].contains w then
      g.declarationOf w
    else absent

/-! ## All statements -/

def decorated : Parser Node := do
  let front ← repeated g.limit g.decorator
  match ← peekWord with
  | "export" => g.exportStatement front
  | _ => g.classDeclaration front

/-- A statement that begins with a word, if that word is a keyword here. -/
def keywordStatement : Parser Node := do
  match ← peekWord with
  | "" => absent
  | "if" => g.ifStatement
  | "for" => g.forStatement
  | "while" =>
    node .whileStatement [word "while", must g.condition, must (g.statement.as .body)]
  | "do" =>
    node .doStatement
      [word "do", must (g.statement.as .body), must (word "while"), must g.condition,
       optional semicolon]
  | "switch" => g.switchStatement
  | "try" => g.tryStatement
  | "with" =>
    node .withStatement [word "with", must (g.parenthesized.as .object), must (g.statement.as .body)]
  | "break" => jump .breakStatement "break" (anyName .statementLabel)
  | "continue" => jump .continueStatement "continue" (anyName .statementLabel)
  | "debugger" => node .debuggerStatement [word "debugger", must (semicolonAfter false)]
  | "return" => jump .returnStatement "return" g.sequence
  | "throw" => node .throwStatement [word "throw", must g.sequence, must semicolon]
  | "import" => do
    notAhead (word "import" *> marks ["(", "."])
    g.importStatement
  | "export" => g.exportStatement []
  | "let" => do
    ahead (word "let" *> g.binding)
    g.variableStatement
  | "namespace" =>
    node .expressionStatement
      [g.moduleDeclaration .namespaceDeclaration "namespace", must semicolon]
  | "async" => g.functionDeclaration
  | "abstract" => attempt (g.classDeclaration [])
  | "declare" => attempt g.declaration
  | "type" => g.typeAliasDeclaration
  | "interface" => attempt g.interfaceDeclaration
  | _ => g.declaration

def labeledStatement : Parser Node := do
  let head ← attempt (inOrder [(anyName .statementLabel).as .label, mark ":"])
  node .labeledStatement [pure head, must (g.statement.as .body)]

def statementForm : Parser Node := do
  match ← peekChar with
  | none => absent
  | some '\x7b' => g.block
  | some ';' => node .emptyStatement [mark ";"]
  | some '@' => g.decorated
  | some '\x7d' => absent
  | _ => oneOf [g.keywordStatement, g.labeledStatement, g.expressionStatement]

end ClientMigration.Script.Grammar.Rules
