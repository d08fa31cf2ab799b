import ScriptToShell.Source.Span
import ScriptToShell.Tree.Kind
import ScriptToShell.Tree.Operator

/-!
# Programs

The statements and expressions a shell script can be made of. A
construct of the source language outside this vocabulary is kept as an
`unsupported` node with its kind, so that the message that turns it down
can name it and point at it.

Every node carries the span of its text. Parentheses leave no node:
they show only in the spans of the nodes around them.
-/

namespace ScriptToShell

/-- **A literal.** A number is kept as it is written. -/
inductive Literal where
  | string (value : String)
  | number (text : String)
  | boolean (value : Bool)
  | null
deriving DecidableEq, Repr, Inhabited

namespace Literal

/-- The text a literal stands for. -/
def text : Literal → String
  | .string value => value
  | .number text => text
  | .boolean true => "true"
  | .boolean false => "false"
  | .null => "null"

end Literal

/-- **An expression.** -/
inductive Expr where
  | identifier (name : String) (span : Span)
  | literal (value : Literal) (span : Span)
  | binary (op : BinaryOp) (left right : Expr) (span : Span)
  | logical (op : LogicalOp) (left right : Expr) (span : Span)
  | not (argument : Expr) (span : Span)
  | call (callee : Expr) (arguments : List Expr) (span : Span)
  /-- Access to a property by its name. -/
  | member (object : Expr) (property : String) (span : Span)
  /-- `import.meta` and `new.target`. -/
  | metaProperty (owner property : String) (span : Span)
  | unsupported (kind : NodeKind) (span : Span)
deriving Repr, Inhabited

namespace Expr

/-- Where an expression stands. -/
def span : Expr → Span
  | .identifier _ s | .literal _ s | .binary _ _ _ s | .logical _ _ _ s | .not _ s
  | .call _ _ s | .member _ _ s | .metaProperty _ _ s | .unsupported _ s => s

/-- The kind of an expression. -/
def kind : Expr → NodeKind
  | .identifier .. => .identifier
  | .literal .. => .literal
  | .binary .. => .binaryExpression
  | .logical .. => .logicalExpression
  | .not .. => .unaryExpression
  | .call .. => .callExpression
  | .member .. => .memberExpression
  | .metaProperty .. => .metaProperty
  | .unsupported k _ => k

end Expr

/-- **What a declaration or parameter binds**: a name, or a pattern no
shell variable can take. -/
inductive Pattern where
  | identifier (name : String) (span : Span)
  | unsupported (kind : NodeKind) (span : Span)
deriving DecidableEq, Repr, Inhabited

namespace Pattern

/-- Where a pattern stands. -/
def span : Pattern → Span
  | .identifier _ s | .unsupported _ s => s

end Pattern

/-- The keyword of a declaration. -/
inductive DeclKind where
  | var | let | const
deriving DecidableEq, Repr, Inhabited

/-- **One binding of a declaration**, with its initial value if it has
one. -/
structure Declarator where
  /-- What is bound. -/
  target : Pattern
  /-- The initial value. -/
  init : Option Expr
  /-- Where the binding stands. -/
  span : Span
deriving Repr, Inhabited

mutual

/-- **A statement.** -/
inductive Stmt where
  | block (body : List Stmt) (span : Span)
  | empty (span : Span)
  | expression (value : Expr) (span : Span)
  | branch (test : Expr) (consequent : Stmt) (alternate : Option Stmt) (span : Span)
  | function (name : String) (params : List Pattern) (body : List Stmt) (span : Span)
  | ret (argument : Option Expr) (span : Span)
  | declaration (kind : DeclKind) (declarators : List Declarator) (span : Span)
  | switch (discriminant : Expr) (cases : List SwitchCase) (span : Span)
  | importModule (source : String) (span : Span)
  | exit (span : Span)
  /-- A statement that has no shell counterpart. -/
  | unsupported (kind : NodeKind) (span : Span)

/-- **A case of a `switch`**; the default case has no test. -/
inductive SwitchCase where
  | mk (test : Option Expr) (consequent : List Stmt) (span : Span)

end

deriving instance Repr for Stmt, SwitchCase

instance : Inhabited Stmt := ⟨.empty .nowhere⟩

instance : Inhabited SwitchCase := ⟨.mk none [] .nowhere⟩

namespace Stmt

/-- Where a statement stands. -/
def span : Stmt → Span
  | .block _ s | .empty s | .expression _ s | .branch _ _ _ s | .function _ _ _ s | .ret _ s
  | .declaration _ _ s | .switch _ _ s | .importModule _ s | .exit s | .unsupported _ s => s

end Stmt

namespace SwitchCase

/-- The test of a case; none for the default. -/
def test : SwitchCase → Option Expr
  | .mk t _ _ => t

/-- The statements of a case. -/
def consequent : SwitchCase → List Stmt
  | .mk _ c _ => c

/-- Where a case stands. -/
def span : SwitchCase → Span
  | .mk _ _ s => s

end SwitchCase

/-- **A program**: its statements in the order of the text. -/
structure Program where
  /-- The statements. -/
  body : List Stmt
  /-- The extent of the text. -/
  span : Span
deriving Repr, Inhabited

end ScriptToShell
