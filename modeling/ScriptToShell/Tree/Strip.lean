import ScriptToShell.Tree.Basic

/-!
# Programs without places

`stripSpans` forgets where the nodes of a program stand: every span
becomes `0..0` and nothing else changes. Two programs with the same
stripped form differ in their spans only.
-/

namespace ScriptToShell

mutual

/-- An expression with every span forgotten. -/
def Expr.stripSpans : Expr → Expr
  | .identifier name _ => .identifier name .nowhere
  | .literal value _ => .literal value .nowhere
  | .binary op left right _ => .binary op left.stripSpans right.stripSpans .nowhere
  | .logical op left right _ => .logical op left.stripSpans right.stripSpans .nowhere
  | .not argument _ => .not argument.stripSpans .nowhere
  | .call callee arguments _ => .call callee.stripSpans (Expr.stripSpansAll arguments) .nowhere
  | .member object property _ => .member object.stripSpans property .nowhere
  | .metaProperty owner property _ => .metaProperty owner property .nowhere
  | .unsupported kind _ => .unsupported kind .nowhere

/-- Expressions with every span forgotten. -/
def Expr.stripSpansAll : List Expr → List Expr
  | [] => []
  | e :: es => e.stripSpans :: Expr.stripSpansAll es

end

/-- A pattern with its span forgotten. -/
def Pattern.stripSpans : Pattern → Pattern
  | .identifier name _ => .identifier name .nowhere
  | .unsupported kind _ => .unsupported kind .nowhere

/-- A binding with every span forgotten. -/
def Declarator.stripSpans (d : Declarator) : Declarator :=
  ⟨d.target.stripSpans, d.init.map Expr.stripSpans, .nowhere⟩

mutual

/-- A statement with every span forgotten. -/
def Stmt.stripSpans : Stmt → Stmt
  | .block body _ => .block (Stmt.stripSpansAll body) .nowhere
  | .empty _ => .empty .nowhere
  | .expression value _ => .expression value.stripSpans .nowhere
  | .branch test consequent none _ =>
    .branch test.stripSpans consequent.stripSpans none .nowhere
  | .branch test consequent (some alternate) _ =>
    .branch test.stripSpans consequent.stripSpans (some alternate.stripSpans) .nowhere
  | .function name params body _ =>
    .function name (params.map Pattern.stripSpans) (Stmt.stripSpansAll body) .nowhere
  | .ret argument _ => .ret (argument.map Expr.stripSpans) .nowhere
  | .declaration kind declarators _ =>
    .declaration kind (declarators.map Declarator.stripSpans) .nowhere
  | .switch discriminant cases _ =>
    .switch discriminant.stripSpans (SwitchCase.stripSpansAll cases) .nowhere
  | .importModule source _ => .importModule source .nowhere
  | .exit _ => .exit .nowhere
  | .unsupported kind _ => .unsupported kind .nowhere

/-- Statements with every span forgotten. -/
def Stmt.stripSpansAll : List Stmt → List Stmt
  | [] => []
  | s :: ss => s.stripSpans :: Stmt.stripSpansAll ss

/-- A case with every span forgotten. -/
def SwitchCase.stripSpans : SwitchCase → SwitchCase
  | .mk test consequent _ =>
    .mk (test.map Expr.stripSpans) (Stmt.stripSpansAll consequent) .nowhere

/-- Cases with every span forgotten. -/
def SwitchCase.stripSpansAll : List SwitchCase → List SwitchCase
  | [] => []
  | c :: cs => c.stripSpans :: SwitchCase.stripSpansAll cs

end

/-- **A program with every span forgotten.** -/
def Program.stripSpans (p : Program) : Program :=
  ⟨Stmt.stripSpansAll p.body, .nowhere⟩

end ScriptToShell
