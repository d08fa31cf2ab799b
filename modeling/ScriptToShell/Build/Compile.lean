import ScriptToShell.Build.Failure
import ScriptToShell.Emit.Source
import ScriptToShell.Path.Layout
import ScriptToShell.Tree.Imports
import ScriptToShell.Tree.Outline
import ScriptToShell.Tree.Strip

/-!
# Compiling a file

A file is read and parsed, and according to the mode its script is
written, checked for faults only, or left aside for the outline of the
program. The texts of the modules it imports are fetched beforehand, so
that the script itself is computed without looking at any file.
-/

namespace ScriptToShell

/-- **What is made of a file.** -/
inductive Mode where
  /-- The script. -/
  | emit
  /-- Whether there is a script. -/
  | check
  /-- The outline of the program. -/
  | outline
deriving DecidableEq, Repr, Inhabited

/-- **How files are compiled.** -/
structure Request where
  /-- How scripts are written. -/
  options : Options := {}
  /-- What is made of a file. -/
  mode : Mode := .emit
  /-- The file a script is written to. -/
  output : Option Path := none
  /-- Whether written scripts are made executable. -/
  executable : Bool := false
deriving Repr, Inhabited

variable {m : Type → Type} [Monad m] [FileStore m]

/-- Raises a refusal as a failure. -/
def orFail {α : Type} (action : m (Except Refusal α)) (failure : Refusal → Failure) :
    ExceptT Failure m α := do
  match ← action with
  | .ok a => return a
  | .error refusal => throw (failure refusal)

/-- **The generated text of a module**, read from the place the layout
gives it. -/
def moduleText (layout : Layout) (base : Path) (importer : Option Path) (specifier : String) :
    m (Except Fault String) := do
  let path := layout.resolve base importer specifier
  if ← FileStore.isFile path then
    match ← FileStore.readText path with
    | .ok text => return .ok text
    | .error refusal => return .error (.moduleUnreadable specifier path refusal.message)
  else return .error (.moduleNotFound specifier path)

/-- The texts of modules that have been fetched, by specifier. -/
def fetched (texts : List (String × Except Fault String)) (specifier : String) :
    Except Fault String :=
  match texts.find? (·.1 = specifier) with
  | some (_, text) => text
  | none => .error (.moduleNotFound specifier ⟨specifier⟩)

/-- The setting of a program: its options, and the texts of the modules it
imports. -/
def settingFor (options : Options) (fetch : String → m (Except Fault String)) (p : Program) :
    m Setting := do
  let texts ← p.imports.mapM fun specifier => return (specifier, ← fetch specifier)
  return { options, modules := fetched texts }

/-- **Writes a script**, with the directories it needs. -/
def writeScript (path : Path) (text : String) (executable : Bool) : ExceptT Failure m Unit := do
  match path.parent with
  | some directory =>
    if !directory.text.isEmpty then
      orFail (m := m) (FileStore.makeDirectories directory) (.uncreatable directory)
  | none => pure ()
  orFail (m := m) (FileStore.writeText path text) (.unwritable path)
  if executable then
    ExceptT.lift (FileStore.markExecutable path : m Unit)

/-- Reads a file as a source text under its own path. -/
def readSource (path : Path) : ExceptT Failure m SourceMap := do
  let text ← orFail (m := m) (FileStore.readText path) (.unreadableFile path)
  return ⟨path.text, text⟩

/-- The value of a computation about a source. -/
def inSource {α : Type} (source : SourceMap) (outcome : Except Fault α) : ExceptT Failure m α :=
  match outcome with
  | .ok a => return a
  | .error fault => throw (.faulty fault source)

/-- **Compiles a file** with a way to fetch the modules it imports. -/
def compileFileWith (fetch : String → m (Except Fault String)) (path : Path) (r : Request) :
    ExceptT Failure m String := do
  if (← (FileStore.kind? path : m (Option FileKind))).isNone then throw (.missingFile path)
  let source ← readSource path
  let program ← inSource source (Program.parse source.text)
  if r.mode = .outline then return program.stripSpans.outline.text 0
  let w ← ExceptT.lift (settingFor r.options fetch program)
  let script ← inSource source (program.script w)
  if r.mode = .check then return "OK"
  match r.output with
  | some output => writeScript output script r.executable
  | none => pure ()
  return script

/-- **Compiles a file.** The modules it imports are looked for beside
it. -/
def compileFile (path : Path) (r : Request) : ExceptT Failure m String :=
  compileFileWith (moduleText {} (path.parent.getD ⟨"."⟩) (some path)) path r

end ScriptToShell
