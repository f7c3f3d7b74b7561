/-
# Script.Kind -- the kinds of nodes in a module's syntax tree

One constructor for each syntactic form of a TypeScript module, with or without
embedded markup. `token` is a word or mark of the grammar that stands for
itself; every other kind is *named*.
-/

namespace ClientMigration.Script

set_option autoImplicit false

inductive Kind where
  /-- A keyword or a mark, given by its own text. -/
  | token (text : String)
  | program | hashBang | comment
  -- modules
  | importStatement | importClause | namespaceImport | namedImports | importSpecifier
  | importRequireClause | importAlias | importAttribute
  | exportStatement | exportClause | exportSpecifier | namespaceExport
  -- statements
  | expressionStatement | lexicalDeclaration | variableDeclaration | variableDeclarator
  | statementBlock | emptyStatement | ifStatement | elseClause
  | switchStatement | switchBody | switchCase | switchDefault
  | forStatement | forInStatement | whileStatement | doStatement
  | tryStatement | catchClause | finallyClause | withStatement
  | breakStatement | continueStatement | debuggerStatement
  | returnStatement | throwStatement | labeledStatement | statementLabel
  -- declarations
  | functionDeclaration | generatorFunctionDeclaration | functionSignature
  | classDeclaration | abstractClassDeclaration | interfaceDeclaration
  | typeAliasDeclaration | enumDeclaration | enumBody | enumAssignment
  | moduleDeclaration | namespaceDeclaration | ambientDeclaration
  -- classes
  | classBody | classHeritage | extendsClause | implementsClause
  | methodDefinition | methodSignature | abstractMethodSignature | fieldDefinition
  | classStaticBlock | decorator | modifier
  -- parameters and patterns
  | formalParameters | requiredParameter | optionalParameter
  | objectPattern | arrayPattern | restPattern | pairPattern
  | assignmentPattern | objectAssignmentPattern | shorthandPropertyIdentifierPattern
  -- names
  | identifier | propertyIdentifier | privatePropertyIdentifier
  | shorthandPropertyIdentifier | typeIdentifier | nestedIdentifier | nestedTypeIdentifier
  | computedPropertyName
  -- expressions
  | this | super | nullLiteral | booleanLiteral | undefinedLiteral
  | number | string
  | templateString | templateSubstitution | regex
  | parenthesizedExpression | sequenceExpression | array | object | pair | spreadElement
  | functionExpression | generatorFunction | arrowFunction | classExpression
  | callExpression | arguments | newExpression | memberExpression | subscriptExpression
  | optionalChain | nonNullExpression | metaProperty | importCallee
  | assignmentExpression | augmentedAssignmentExpression | ternaryExpression
  | binaryExpression | unaryExpression | updateExpression | awaitExpression | yieldExpression
  | asExpression | satisfiesExpression | typeAssertion | instantiationExpression
  -- markup
  | element | selfClosingElement | openingTag | closingTag | markupAttribute
  | markupText | markupExpression | markupNamespaceName
  -- types
  | declaredType | typePredicate | assertsPredicate | typeParameters | typeParameter
  | typeArguments | predefinedType | literalType | templateLiteralType | templateType
  | genericType | objectType | propertySignature | callSignature | constructSignature
  | indexSignature | mappedTypeClause | arrayType | tupleType | tupleParameter | optionalType
  | restType | functionType | constructorType | typeQuery | indexTypeQuery | readonlyType
  | inferType | conditionalType | unionType | intersectionType | lookupType
  | parenthesizedType | thisType | existentialType | constraint | defaultType
  deriving DecidableEq, Repr

namespace Kind

/-- Words and marks that stand for themselves are not named; all else is. -/
def isNamed : Kind → Bool
  | .token _ => false
  | _ => true

/-- Forms whose body runs when they are called. -/
def isFunction : Kind → Bool
  | .functionDeclaration | .functionExpression | .generatorFunctionDeclaration
  | .generatorFunction | .arrowFunction | .methodDefinition => true
  | _ => false

/-- Forms that are one word of the text. -/
def isWord : Kind → Bool
  | .identifier | .propertyIdentifier | .privatePropertyIdentifier | .shorthandPropertyIdentifier
  | .shorthandPropertyIdentifierPattern | .typeIdentifier | .statementLabel => true
  | _ => false

end Kind

/-- The part a node plays in the node above it. -/
inductive Role where
  | source | name | alias | value | pattern | left | right
  | object | property | index | function | arguments | operand | operator
  | parameters | parameter | body | initializer | condition | increment
  | consequence | alternative | handler | finalizer | declaration | label | key | type
  deriving DecidableEq, Repr

end ClientMigration.Script
