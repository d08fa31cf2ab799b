import ScriptToShell.Build.Project
import ScriptToShell.Command.Line

/-!
# Running a command

A command compiles a file, or all sources of a directory. What it prints
is its result; what goes wrong is a failure.
-/

namespace ScriptToShell.Command

/-- What the command says about itself. -/
def helpText : String :=
  Text.joinWith "\n"
    ["Translate a small subset of JavaScript into shell scripts",
     "",
     "Usage: js2sh [OPTIONS] <INPUT>",
     "",
     "Arguments:",
     "  <INPUT>  Script to translate, or a directory of scripts (with --out-dir)",
     "",
     "Options:",
     "  -o, --out <FILE>       Write output to file instead of stdout",
     "      --out-dir <DIR>    Output directory when INPUT is a directory",
     "      --target <TARGET>  Output shell dialect [default: bash]",
     "      --indent <N|tab>   Indentation unit: a number of spaces (1-8) or `tab` [default: 2]",
     "      --no-shebang       Do not start the script with a shebang line",
     "      --check            Translate without emitting code",
     "      --emit-ast         Print the parsed syntax tree (debug)",
     "      --chmod-x          Set the executable bit on written scripts (default)",
     "      --no-chmod-x       Do not set the executable bit on written scripts",
     "  -v, --verbose...       Increase logging verbosity (-v for DEBUG, -vv for TRACE)",
     "  -h, --help             Print help",
     "  -V, --version          Print version",
     ""]

/-- The name and version of the command. -/
def versionText : String := "js2sh 0.1.0\n"

namespace Line

/-- What is made of the input. -/
def mode (line : Line) : Mode :=
  if line.has .emitAst then .outline else if line.has .check then .check else .emit

/-- How files are compiled. -/
def request (line : Line) : Request where
  options := { target := line.target, indent := line.indent, shebang := !line.has .noShebang }
  mode := line.mode
  output := line.out.map Path.mk
  executable := !line.has .noChmodX

variable {m : Type → Type} [Monad m] [FileStore m]

/-- Compiles a directory; the result lists the scripts. -/
def runDirectory (line : Line) (input : Path) : ExceptT Failure m String := do
  if line.out.isSome then throw (.misfit .fileForDirectory)
  let out ← match line.outDir, line.mode with
    | some directory, _ => pure (Path.mk directory)
    | none, .check => pure input
    | none, _ => throw (.misfit .directoryWithoutOutput)
  let built ← buildProject input out line.request
  if line.mode = .check then return "OK\n"
  return String.join (built.map fun b => b.output.text ++ "\n")

/-- Compiles a file; the result is the script unless it is written
elsewhere. -/
def runFile (line : Line) (input : Path) : ExceptT Failure m String := do
  if line.outDir.isSome then throw (.misfit .directoryForFile)
  let result ← compileFile input line.request
  if line.mode ≠ .emit then return result ++ "\n"
  return if line.out.isSome then "" else result

/-- **Runs a command**: what it prints. -/
def run (line : Line) : ExceptT Failure m String := do
  let choosesMode := line.has .chmodX || line.has .noChmodX
  if choosesMode && line.out.isNone && line.outDir.isNone then
    throw (.misfit .executableWithoutOutput)
  let input := Path.mk (line.input.getD "")
  if ← (FileStore.isDirectory input : m Bool) then line.runDirectory input
  else line.runFile input

end Line

end ScriptToShell.Command
