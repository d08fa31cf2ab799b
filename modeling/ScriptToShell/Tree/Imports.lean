import ScriptToShell.Tree.Basic

/-!
# The imports of a program

An import may stand wherever a statement may. The modules a program needs
are those of all its imports, while the order in which modules are built
follows the imports at the outermost level alone.
-/

namespace ScriptToShell

mutual

/-- The modules a statement imports. -/
def Stmt.imports : Stmt → List String
  | .importModule source _ => [source]
  | .block body _ => Stmt.importsAll body
  | .branch _ consequent none _ => consequent.imports
  | .branch _ consequent (some alternate) _ => consequent.imports ++ alternate.imports
  | .function _ _ body _ => Stmt.importsAll body
  | .switch _ cases _ => SwitchCase.importsAll cases
  | _ => []

/-- The modules statements import. -/
def Stmt.importsAll : List Stmt → List String
  | [] => []
  | s :: ss => s.imports ++ Stmt.importsAll ss

/-- The modules a case imports. -/
def SwitchCase.imports : SwitchCase → List String
  | .mk _ consequent _ => Stmt.importsAll consequent

/-- The modules cases import. -/
def SwitchCase.importsAll : List SwitchCase → List String
  | [] => []
  | c :: cs => c.imports ++ SwitchCase.importsAll cs

end

/-- **The modules a program imports**, in the order of the text. -/
def Program.imports (p : Program) : List String := Stmt.importsAll p.body

/-- The modules a program imports at the outermost level. -/
def Program.outerImports (p : Program) : List String :=
  p.body.filterMap fun
    | .importModule source _ => some source
    | _ => none

end ScriptToShell
