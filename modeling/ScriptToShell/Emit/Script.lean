import ScriptToShell.Emit.Statement

/-!
# Programs as scripts

The statements of a program are written in the order of the text, each
into a chunk of its own, from the outermost nesting. The first fault ends
the run. The script is the chunks laid out as one text.
-/

namespace ScriptToShell

/-- The chunks of a list of statements, one for each. -/
def Stmt.chunks (w : Setting) : List Stmt → Emission (List String)
  | [] => return []
  | s :: ss => do
    let lines ← s.emit w
    let rest ← Stmt.chunks w ss
    return Text.joinWith "\n" lines :: rest

/-- **The chunks of a program.** -/
def Program.chunks (w : Setting) (p : Program) : Except Fault (List String) :=
  ((Stmt.chunks w p.body).runFrom {}).1

/-- **The script of a program.** -/
def Program.script (w : Setting) (p : Program) : Except Fault String :=
  (p.chunks w).map (Shell.script w.options)

end ScriptToShell
