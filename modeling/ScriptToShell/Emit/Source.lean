import ScriptToShell.Emit.Script
import ScriptToShell.Grammar.Program

/-!
# Source texts as scripts

A source text is read as a program, and the program is written as a
script. Either step may find a fault.
-/

namespace ScriptToShell

/-- **The script of a source text.** -/
def scriptOfSource (w : Setting) (source : String) : Except Fault String := do
  let program ← Program.parse source
  program.script w

end ScriptToShell
