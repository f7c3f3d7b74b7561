/-
# Proofs.Codemod.Fitting -- changes after which a module still reads

What is known of the grammar, in terms of an arbitrary reader. A change *fits* a
tree if it puts something of one sort where something of that sort stands: a name
for a name, a call for a call, a literal for a literal, a declaration at the head
of a block, a clause for a clause; or if it takes out an import between
statements that do not run together then (`Fits`, `Appends`). `Grammatical` says
that a module reads after changes that fit. It also says the one thing that is
known the other way round: a decorator is a name, or a name called, so that a
call in a decorator's name does not read (`InDecorator`).
-/
import ClientMigration.Codemod.Migration
import ClientMigration.Proofs.Script.Places

namespace ClientMigration.Codemod

set_option autoImplicit false

open Script

/-! ## Names and calls -/

/-- A word that the reader takes for an identifier somewhere. -/
def IsName (read : Reader) (word : Text) : Prop :=
  ∃ markup source tree p, read markup source = .ok tree ∧ p ∈ tree.allPlaces ∧
    p.node.kind = .identifier ∧ p.node.text source = word

/-- Words of letters and digits that are no names. -/
def reservedWords : List String :=
  ["break", "case", "catch", "class", "const", "continue", "debugger", "default", "delete", "do",
   "else", "enum", "export", "extends", "false", "finally", "for", "function", "if", "import", "in",
   "instanceof", "new", "null", "return", "super", "switch", "this", "throw", "true", "try",
   "typeof", "var", "void", "while", "with", "yield", "await", "undefined"]

/-- Words of letters and digits that begin with a letter and are not reserved. -/
def isPlainWord (word : String) : Bool :=
  word.toList.all Char.isAlphanum && word.toList.head?.any Char.isAlpha &&
    !reservedWords.contains word

def isQuote (c : Char) : Bool := c == '\'' || c == '"'

/-- A name called on one string of letters. -/
def IsCall (read : Reader) (text : Text) : Prop :=
  ∃ f w q, IsName read f ∧ w.all Char.isAlpha ∧ isQuote q ∧
    text = f ++ ['('] ++ [q] ++ w ++ [q] ++ [')']

/-- A constant that is given the result of a call, behind some blank. -/
def IsDeclaration (read : Reader) (text : Text) : Prop :=
  ∃ blank name call, blank ≠ [] ∧ blank.all (fun c => c == ' ' || c == '\t' || c == '\n') ∧
    IsName read name ∧ IsCall read call ∧
    text = blank ++ "const ".toList ++ name ++ " = ".toList ++ call ++ [';']

/-- An import of one name, on a line of its own. -/
def IsImport (read : Reader) (text : Text) : Prop :=
  ∃ name module q, IsName read name ∧ isQuote q ∧
    module.all (fun c => c.isAlphanum || c == '@' || c == '/') ∧
    text = "import \x7b ".toList ++ name ++ " \x7d from ".toList ++ [q] ++ module ++ [q] ++ ";\n".toList

/-- The text of an import specifier of the tree. -/
def IsSpecifier (source : Text) (tree : Node) (text : String) : Prop :=
  ∃ spec, Node.Within tree spec ∧ spec.kind = .importSpecifier ∧ spec.name source = text

/-! ## Where changes are made -/

/-- `x.verb(…)` with the place as `x`. -/
def HeadsCall (p : Place) : Prop :=
  ∃ member call up, p.above = member :: call :: up ∧ member.kind = .memberExpression ∧
    p.node.plays .object ∧ call.kind = .callExpression ∧ member.plays .function

/-- The same with the call as a decorator. -/
def isDecorating (p : Place) : Bool :=
  match p.above with
  | _ :: _ :: d :: _ => d.kind == .decorator
  | _ => false

/-- Whether a word goes on, or begins, at an offset. -/
def wordAt (source : Text) (offset : Nat) : Bool :=
  ((source.dropBytes? offset).getD []).head?.any Grammar.isWordPart

/-- Whether the last character of a node ends a statement. -/
def isClosed (source : Text) (n : Node) : Bool := (n.text source).getLast? == some ';'

/-- Whether a node begins with a mark that can also continue a statement. -/
def opensWithMark (source : Text) (n : Node) : Bool :=
  (n.text source).head?.any ("`,.;*%><=[(?^|&/+-!".toList.contains ·)

/-- A statement with no end of its own stands in front of a node, and behind it one that begins like
the rest of a statement. -/
def RunsOn (source : Text) (tree n : Node) : Prop :=
  (∃ a ∈ tree.children, a.kind ≠ .comment ∧ a.stop ≤ n.start ∧ ¬ isClosed source a) ∧
    ∃ b ∈ tree.children, b.kind ≠ .comment ∧ n.stop ≤ b.start ∧ opensWithMark source b

/-- An import taken out from between statements that run together then. -/
def IsRunOn (source : Text) (tree : Node) (e : Edit) : Prop :=
  ∃ statement ∈ importStatements tree, RunsOn source tree statement ∧ e = deletion source statement

/-- A change that puts like for like. -/
inductive Fits (read : Reader) (source : Text) (tree : Node) : Edit → Prop
  | name {p : Place} {text : Text} (inTree : p ∈ tree.allPlaces) (plain : p.node.kind = .identifier)
      (heads : HeadsCall p) (word : IsName read text) :
      Fits read source tree ⟨p.node.start, p.node.stop, text⟩
  | inlined {p : Place} {text : Text} (inTree : p ∈ tree.allPlaces)
      (plain : p.node.kind = .identifier) (heads : HeadsCall p) (free : ¬ isDecorating p)
      (call : IsCall read text) : Fits read source tree ⟨p.node.start, p.node.stop, text⟩
  | recalled {n : Node} {text : Text} (inside : Node.Within tree n) (kind : n.kind = .callExpression)
      (call : IsCall read text) : Fits read source tree ⟨n.start, n.stop, text⟩
  /-- A literal that loses characters of a path at its head, or has a slash in their stead. -/
  | literal {n : Node} {q : Char} {front back text : Text} (inside : Node.Within tree n)
      (kind : isLiteral n) (whole : n.text source = q :: (front ++ back) ++ [q])
      (path : front.all fun c => c.isAlphanum || c == '/') (kept : text = back ∨ text = '/' :: back) :
      Fits read source tree ⟨n.start, n.stop, q :: text ++ [q]⟩
  | opening {block brace : Node} {rest : List Node} {text : Text} (inside : Node.Within tree block)
      (kind : block.kind = .statementBlock) (children : block.children = brace :: rest)
      (opens : brace.kind = .token "\x7b") (declaration : IsDeclaration read text) :
      Fits read source tree (.insert brace.stop text)
  /-- Behind a directive, on a line of its own or on the line on which something follows. -/
  | behindDirective {block n : Node} {text : Text} (inside : Node.Within tree block)
      (kind : block.kind = .statementBlock) (isChild : n ∈ block.children) (directive : isDirective n)
      (declaration : IsDeclaration read text)
      (parted : text.head? = some '\n' ∨ ∃ front next back,
        block.namedChildren = front ++ n :: next :: back ∧
          (source.slice n.stop next.start).hasLineFeed = false) :
      Fits read source tree (.insert n.stop text)
  | ahead {statement : Node} {text : Text} (isImport : statement ∈ importStatements tree)
      (another : IsImport read text) : Fits read source tree (.insert statement.start text)
  /-- A clause whose text does not run into the word behind it. -/
  | clause {statement clause : Node} {default? : Option String} {named : List String} {text : String}
      (isImport : statement ∈ importStatements tree) (found : importClause? statement = some clause)
      (default_ : ∀ d ∈ default?, (defaultImport? clause).map (·.name source) = some d)
      (names : ∀ n ∈ named, IsSpecifier source tree n ∨ IsName read n.toList)
      (written : clauseText? default? named = some text)
      (parted : named ≠ [] ∨ ¬ wordAt source clause.stop) :
      Fits read source tree ⟨clause.start, clause.stop, text.toList⟩
  | removal {statement : Node} (isImport : statement ∈ importStatements tree)
      (apart : ¬ RunsOn source tree statement) : Fits read source tree (deletion source statement)

/-- A change that puts specifiers into the braces of an import. -/
inductive Appends (source : Text) (tree : Node) : Edit → Prop
  | filled {statement clause braces : Node} {names : List String}
      (isImport : statement ∈ importStatements tree) (found : importClause? statement = some clause)
      (named : namedImports? clause = some braces) (empty : specifiers braces = [])
      (some : names ≠ []) (specs : ∀ n ∈ names, IsSpecifier source tree n) :
      Appends source tree
        ⟨braces.start, braces.stop, ("\x7b " ++ ", ".intercalate names ++ " \x7d").toList⟩
  | behindLast {statement clause braces last : Node} {names : List String}
      (isImport : statement ∈ importStatements tree) (found : importClause? statement = some clause)
      (named : namedImports? clause = some braces) (isLast : (specifiers braces).getLast? = some last)
      (some : names ≠ []) (specs : ∀ n ∈ names, IsSpecifier source tree n) :
      Appends source tree (.insert last.stop (", " ++ ", ".intercalate names).toList)
  | behindComma {statement clause braces last : Node} {names : List String} {blank rest : Text}
      (isImport : statement ∈ importStatements tree) (found : importClause? statement = some clause)
      (named : namedImports? clause = some braces) (isLast : (specifiers braces).getLast? = some last)
      (comma : source.dropBytes? last.stop = some (blank ++ ',' :: rest))
      (isBlank : blank.all Text.isBlank)
      (some : names ≠ []) (specs : ∀ n ∈ names, IsSpecifier source tree n) :
      Appends source tree
        (.insert (last.stop + blank.bytes + 1) (" " ++ ", ".intercalate names).toList)

/-- A call in the place of the name that a decorator calls a method of. -/
def InDecorator (read : Reader) (tree : Node) (e : Edit) : Prop :=
  ∃ p ∈ tree.allPlaces, p.node.kind = .identifier ∧ HeadsCall p ∧ isDecorating p ∧
    ∃ text, IsCall read text ∧ e = ⟨p.node.start, p.node.stop, text⟩

/-! ## What is known of the grammar -/

structure Grammatical (read : Reader) : Prop where
  /-- What an import specifier gives to its module is an identifier. -/
  specifier : ∀ {markup source tree spec there here}, read markup source = .ok tree →
    Node.Within tree spec → spec.kind = .importSpecifier →
    specifierNames? source spec = some (there, here) → IsName read here.toList
  /-- The module of an import stands in quotes. -/
  quote : ∀ {markup source tree statement n q}, read markup source = .ok tree →
    statement ∈ importStatements tree → statement.child? .source = some n →
    (n.text source).head? = some q → isQuote q
  word : ∀ {w : String}, isPlainWord w → IsName read w.toList
  /-- A module reads after changes that fit, of which one may append to an import. -/
  fitting : ∀ {markup source tree changes} {append? : Option Edit} {text}, read markup source = .ok tree →
    (∀ e ∈ changes, Fits read source tree e) → (∀ e ∈ append?, Appends source tree e) →
    Edit.apply source (changes ++ append?.toList) = .ok text → ∃ tree', read markup text = .ok tree'
  /-- It does not if one of them puts a call where a decorator names what it calls. -/
  decorating : ∀ {markup source tree changes text}, read markup source = .ok tree →
    (∀ e ∈ changes, Fits read source tree e ∨ InDecorator read tree e) →
    (∃ e ∈ changes, InDecorator read tree e) → Edit.apply source changes = .ok text →
    ∃ e, read markup text = .error e

end ClientMigration.Codemod
