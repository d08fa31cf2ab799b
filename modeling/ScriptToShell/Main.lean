import ScriptToShell.Command.Run
import ScriptToShell.Store.Disk

/-!
# The command

Reads the command line, runs the command on the files of the machine and
prints what comes of it.
-/

open ScriptToShell

/-- Runs the command; the exit code is zero if it succeeds. -/
def main (arguments : List String) : IO UInt32 := do
  match Command.Line.parse arguments with
  | .error .help =>
    IO.print Command.helpText
    return 0
  | .error .version =>
    IO.print Command.versionText
    return 0
  | .error (.misuse cause) =>
    IO.eprintln cause.message
    return 1
  | .ok line =>
    let outcome ← ExceptT.run (line.run (m := IO))
    match outcome with
    | .ok text =>
      IO.print text
      return 0
    | .error failure =>
      IO.eprintln failure.message
      return failure.code.toUInt32
