import ScriptToShell.Text.Escaped
import ScriptToShell.Text.Outline
import ScriptToShell.Tree.Basic

/-!
# The outline of a program

A program can be printed as it has been read, node by node. Each node is
shown with its span around it.
-/

namespace ScriptToShell

/-- The name of an operator in an outline. -/
def BinaryOp.label : BinaryOp → String
  | .equal => "Eq"
  | .strictEqual => "StrictEq"
  | .notEqual => "NotEq"
  | .strictNotEqual => "StrictNotEq"
  | .less => "Lt"
  | .lessEqual => "Le"
  | .greater => "Gt"
  | .greaterEqual => "Ge"
  | .add => "Add"
  | .sub => "Sub"
  | .mul => "Mul"
  | .div => "Div"
  | .mod => "Mod"
  | .exp => "Exp"
  | .shiftLeft => "Shl"
  | .shiftRight => "Shr"
  | .shiftRightUnsigned => "UShr"
  | .bitAnd => "BitAnd"
  | .bitOr => "BitOr"
  | .bitXor => "BitXor"
  | .isIn => "In"
  | .instanceOf => "InstanceOf"

/-- The name of a logical operator in an outline. -/
def LogicalOp.label : LogicalOp → String
  | .and => "And"
  | .or => "Or"

/-- The name of a kind of declaration in an outline. -/
def DeclKind.label : DeclKind → String
  | .var => "Var"
  | .let => "Let"
  | .const => "Const"

namespace Outline

/-- A text in quotes. -/
def quoted (text : String) : Outline := .leaf (Text.quoted text)

/-- The outline of a span. -/
def ofSpan (span : Span) : Outline :=
  .record "Span" [("start", .leaf (toString span.start)), ("end", .leaf (toString span.stop))]

/-- A node with its span. -/
def spanned (node : Outline) (span : Span) : Outline :=
  .record "Spanned" [("node", node), ("span", ofSpan span)]

/-- The outline of a kind of node. -/
def ofKind : NodeKind → Outline
  | .unrecognized name => .apply "Unrecognized" [quoted name]
  | kind => .leaf kind.name

/-- A node that is not supported. -/
def unsupported (kind : NodeKind) : Outline := .apply "Unsupported" [ofKind kind]

/-- The outline of a literal. -/
def ofLiteral : Literal → Outline
  | .string value => .apply "String" [quoted value]
  | .number text => .apply "Number" [quoted text]
  | .boolean value => .apply "Boolean" [.leaf (if value then "true" else "false")]
  | .null => .leaf "Null"

/-- The outline of a pattern. -/
def ofPattern : Pattern → Outline
  | .identifier name span => spanned (.apply "Identifier" [quoted name]) span
  | .unsupported kind span => spanned (unsupported kind) span

end Outline

open Outline

mutual

/-- The outline of an expression. -/
def Expr.outline : Expr → Outline
  | .identifier name span => spanned (.apply "Identifier" [quoted name]) span
  | .literal value span => spanned (.apply "Literal" [ofLiteral value]) span
  | .binary op left right span =>
    spanned (.record "Binary"
      [("op", .leaf op.label), ("left", left.outline), ("right", right.outline)]) span
  | .logical op left right span =>
    spanned (.record "Logical"
      [("op", .leaf op.label), ("left", left.outline), ("right", right.outline)]) span
  | .not argument span => spanned (.apply "Not" [argument.outline]) span
  | .call callee arguments span =>
    spanned (.record "Call"
      [("callee", callee.outline), ("arguments", .list (Expr.outlineAll arguments))]) span
  | .member object property span =>
    spanned (.record "Member" [("object", object.outline), ("property", quoted property)]) span
  | .metaProperty owner property span =>
    spanned (.record "MetaProperty" [("meta", quoted owner), ("property", quoted property)]) span
  | .unsupported kind span => spanned (Outline.unsupported kind) span

/-- The outlines of expressions. -/
def Expr.outlineAll : List Expr → List Outline
  | [] => []
  | e :: es => e.outline :: Expr.outlineAll es

end

/-- The outline of a binding. -/
def Declarator.outline (d : Declarator) : Outline :=
  .record "Declarator"
    [("id", ofPattern d.target), ("init", .option (d.init.map Expr.outline)),
     ("span", ofSpan d.span)]

mutual

/-- The outline of a statement. -/
def Stmt.outline : Stmt → Outline
  | .block body span => spanned (.apply "Block" [.list (Stmt.outlineAll body)]) span
  | .empty span => spanned (.leaf "Empty") span
  | .expression value span => spanned (.apply "Expression" [value.outline]) span
  | .branch test consequent none span =>
    spanned (.record "If"
      [("test", test.outline), ("consequent", consequent.outline),
       ("alternate", .option none)]) span
  | .branch test consequent (some alternate) span =>
    spanned (.record "If"
      [("test", test.outline), ("consequent", consequent.outline),
       ("alternate", .option (some alternate.outline))]) span
  | .function name params body span =>
    spanned (.apply "Function" [.record "FunctionDecl"
      [("name", quoted name), ("params", .list (params.map ofPattern)),
       ("body", .list (Stmt.outlineAll body))]]) span
  | .ret argument span => spanned (.apply "Return" [.option (argument.map Expr.outline)]) span
  | .declaration kind declarators span =>
    spanned (.record "VariableDeclaration"
      [("kind", .leaf kind.label),
       ("declarations", .list (declarators.map Declarator.outline))]) span
  | .switch discriminant cases span =>
    spanned (.record "Switch"
      [("discriminant", discriminant.outline),
       ("cases", .list (SwitchCase.outlineAll cases))]) span
  | .importModule source span => spanned (.record "Import" [("source", quoted source)]) span
  | .exit span => spanned (.leaf "Break") span
  | .unsupported kind span => spanned (Outline.unsupported kind) span

/-- The outlines of statements. -/
def Stmt.outlineAll : List Stmt → List Outline
  | [] => []
  | s :: ss => s.outline :: Stmt.outlineAll ss

/-- The outline of a case. -/
def SwitchCase.outline : SwitchCase → Outline
  | .mk test consequent span =>
    .record "SwitchCase"
      [("test", .option (test.map Expr.outline)),
       ("consequent", .list (Stmt.outlineAll consequent)), ("span", ofSpan span)]

/-- The outlines of cases. -/
def SwitchCase.outlineAll : List SwitchCase → List Outline
  | [] => []
  | c :: cs => c.outline :: SwitchCase.outlineAll cs

end

/-- **The outline of a program.** -/
def Program.outline (p : Program) : Outline :=
  .record "Program" [("body", .list (Stmt.outlineAll p.body)), ("span", ofSpan p.span)]

end ScriptToShell
