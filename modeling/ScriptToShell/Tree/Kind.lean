/-!
# Kinds of nodes

Every node of a program has a kind, named as the tools for JavaScript
name it: `IfStatement`, `CallExpression`, `RestElement`. Messages name a
construct by its kind. A construct outside that vocabulary keeps the
name its grammar rule has.
-/

namespace ScriptToShell

/-- **The kind of a node.** -/
inductive NodeKind where
  | blockStatement | breakStatement | classDeclaration | continueStatement | debuggerStatement
  | doWhileStatement | emptyStatement | exportAllDeclaration | exportDefaultDeclaration
  | exportNamedDeclaration | expressionStatement | forInStatement | forOfStatement | forStatement
  | functionDeclaration | ifStatement | importDeclaration | labeledStatement | returnStatement
  | switchCase | switchStatement | throwStatement | tryStatement | variableDeclaration
  | whileStatement | withStatement
  | arrayExpression | arrowFunctionExpression | assignmentExpression | awaitExpression
  | binaryExpression | callExpression | chainExpression | classExpression | conditionalExpression
  | functionExpression | identifier | importExpression | jsxElement | jsxFragment | literal
  | logicalExpression | memberExpression | metaProperty | newExpression | objectExpression
  | privateIdentifier | sequenceExpression | spreadElement | super | taggedTemplateExpression
  | templateLiteral | thisExpression | unaryExpression | updateExpression | yieldExpression
  | arrayPattern | assignmentPattern | objectPattern | restElement
  /-- A construct without a name of its own, under its grammar rule. -/
  | unrecognized (rule : String)
deriving DecidableEq, Repr, Inhabited

namespace NodeKind

/-- The kinds that have a name of their own. -/
def all : List NodeKind :=
  [.blockStatement, .breakStatement, .classDeclaration, .continueStatement, .debuggerStatement,
   .doWhileStatement, .emptyStatement, .exportAllDeclaration, .exportDefaultDeclaration,
   .exportNamedDeclaration, .expressionStatement, .forInStatement, .forOfStatement,
   .forStatement, .functionDeclaration, .ifStatement, .importDeclaration, .labeledStatement,
   .returnStatement, .switchCase, .switchStatement, .throwStatement, .tryStatement,
   .variableDeclaration, .whileStatement, .withStatement, .arrayExpression,
   .arrowFunctionExpression, .assignmentExpression, .awaitExpression, .binaryExpression,
   .callExpression, .chainExpression, .classExpression, .conditionalExpression,
   .functionExpression, .identifier, .importExpression, .jsxElement, .jsxFragment, .literal,
   .logicalExpression, .memberExpression, .metaProperty, .newExpression, .objectExpression,
   .privateIdentifier, .sequenceExpression, .spreadElement, .super, .taggedTemplateExpression,
   .templateLiteral, .thisExpression, .unaryExpression, .updateExpression, .yieldExpression,
   .arrayPattern, .assignmentPattern, .objectPattern, .restElement]

/-- The name of a kind in messages. -/
def name : NodeKind → String
  | .blockStatement => "BlockStatement"
  | .breakStatement => "BreakStatement"
  | .classDeclaration => "ClassDeclaration"
  | .continueStatement => "ContinueStatement"
  | .debuggerStatement => "DebuggerStatement"
  | .doWhileStatement => "DoWhileStatement"
  | .emptyStatement => "EmptyStatement"
  | .exportAllDeclaration => "ExportAllDeclaration"
  | .exportDefaultDeclaration => "ExportDefaultDeclaration"
  | .exportNamedDeclaration => "ExportNamedDeclaration"
  | .expressionStatement => "ExpressionStatement"
  | .forInStatement => "ForInStatement"
  | .forOfStatement => "ForOfStatement"
  | .forStatement => "ForStatement"
  | .functionDeclaration => "FunctionDeclaration"
  | .ifStatement => "IfStatement"
  | .importDeclaration => "ImportDeclaration"
  | .labeledStatement => "LabeledStatement"
  | .returnStatement => "ReturnStatement"
  | .switchCase => "SwitchCase"
  | .switchStatement => "SwitchStatement"
  | .throwStatement => "ThrowStatement"
  | .tryStatement => "TryStatement"
  | .variableDeclaration => "VariableDeclaration"
  | .whileStatement => "WhileStatement"
  | .withStatement => "WithStatement"
  | .arrayExpression => "ArrayExpression"
  | .arrowFunctionExpression => "ArrowFunctionExpression"
  | .assignmentExpression => "AssignmentExpression"
  | .awaitExpression => "AwaitExpression"
  | .binaryExpression => "BinaryExpression"
  | .callExpression => "CallExpression"
  | .chainExpression => "ChainExpression"
  | .classExpression => "ClassExpression"
  | .conditionalExpression => "ConditionalExpression"
  | .functionExpression => "FunctionExpression"
  | .identifier => "Identifier"
  | .importExpression => "ImportExpression"
  | .jsxElement => "JSXElement"
  | .jsxFragment => "JSXFragment"
  | .literal => "Literal"
  | .logicalExpression => "LogicalExpression"
  | .memberExpression => "MemberExpression"
  | .metaProperty => "MetaProperty"
  | .newExpression => "NewExpression"
  | .objectExpression => "ObjectExpression"
  | .privateIdentifier => "PrivateIdentifier"
  | .sequenceExpression => "SequenceExpression"
  | .spreadElement => "SpreadElement"
  | .super => "Super"
  | .taggedTemplateExpression => "TaggedTemplateExpression"
  | .templateLiteral => "TemplateLiteral"
  | .thisExpression => "ThisExpression"
  | .unaryExpression => "UnaryExpression"
  | .updateExpression => "UpdateExpression"
  | .yieldExpression => "YieldExpression"
  | .arrayPattern => "ArrayPattern"
  | .assignmentPattern => "AssignmentPattern"
  | .objectPattern => "ObjectPattern"
  | .restElement => "RestElement"
  | .unrecognized rule => rule

/-- The kind with a given name; any other text is the name of a grammar
rule. -/
def ofName (text : String) : NodeKind :=
  (all.find? (·.name = text)).getD (.unrecognized text)

end NodeKind

end ScriptToShell
