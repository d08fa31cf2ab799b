import ScriptToShell.Build.Compile
import ScriptToShell.Build.Order

/-!
# Building a directory

Every source below a directory is compiled to the same place below
another. All sources are read before the first is compiled. The modules a
source imports are taken from the scripts this build has already made,
and any other module from where its script was generated before.
-/

namespace ScriptToShell

/-- A source that has been compiled, and its script. -/
structure BuiltModule where
  /-- The source. -/
  source : Path
  /-- Its script. -/
  output : Path
deriving DecidableEq, Repr, Inhabited

/-- A source that has been compiled, with the text of its script. -/
structure CompiledModule extends BuiltModule where
  /-- The text of the script. -/
  text : String
deriving DecidableEq, Repr, Inhabited

/-- A source that has been read. -/
structure SourceFile where
  /-- Its canonical path. -/
  path : Path
  /-- Its text. -/
  source : SourceMap
  /-- The program it spells. -/
  program : Program
  /-- The sources it imports at the outermost level. -/
  imports : List Path
deriving Inhabited

/-- **The sources below a directory.** -/
structure Project where
  /-- The canonical path of the directory. -/
  root : Path
  /-- The sources. -/
  files : List SourceFile
deriving Inhabited

/-- The imports among the sources of a directory. -/
def Project.graph (project : Project) : ImportGraph :=
  project.files.map fun f => (f.path, f.imports)

/-- The sources of a directory at the given paths. -/
def Project.filesAt (project : Project) (paths : List Path) : List SourceFile :=
  paths.filterMap fun path => project.files.find? (·.path = path)

/-- Whether a file is compiled as part of a directory. -/
def isSourcePath (path : Path) : Bool :=
  path.extension? = some "js" || path.extension? = some "mjs"

/-- The file a specifier names as seen from the file that imports it. -/
def importPath? (importer : Path) (specifier : String) : Option Path :=
  importer.parent.map fun directory =>
    let candidate := directory.join ⟨specifier⟩
    if candidate.extension?.isNone then candidate.withExtension "js" else candidate

variable {m : Type → Type} [Monad m] [FileStore m]

/-- The canonical path of the source a specifier names, if it exists. -/
def importedSource? (importer : Path) (specifier : String) : m (Option Path) := do
  match importPath? importer specifier with
  | none => return none
  | some candidate => return (← FileStore.canonical candidate).toOption

/-- Reads one source of a directory. -/
def readSourceFile (path : Path) : ExceptT Failure m SourceFile := do
  let source ← readSource path
  let program ← inSource source (Program.parse source.text)
  let imports ← ExceptT.lift (program.outerImports.filterMapM (importedSource? (m := m) path))
  return ⟨path, source, program, imports⟩

/-- **Reads every source below a directory.** -/
def readProject (src : Path) : ExceptT Failure m Project := do
  let root ← orFail (m := m) (FileStore.canonical src) (.unreadableDirectory src)
  let found ← orFail (m := m) (FileStore.filesUnder root) (.unlisted root)
  let files ← ((found.filter isSourcePath).mergeSort Path.le).mapM (readSourceFile (m := m))
  return ⟨root, files⟩

/-- The generated text of a module: from this build if it has one, else
from where it was generated before. -/
def builtText (root : Path) (texts : List (Path × String)) (importer : Path) (specifier : String) :
    m (Except Fault String) := do
  let built := (← importedSource? importer specifier).bind fun path =>
    texts.find? (·.1 = path)
  match built with
  | some (_, text) => return .ok text
  | none => moduleText {} root (some importer) specifier

/-- The place of the script of a source below the root. -/
def scriptPath (root out source : Path) : Path :=
  (out.join ((source.stripPrefix? root).getD source)).withExtension "sh"

/-- Compiles sources in the given order. `texts` are the texts of the
modules built so far. -/
def compileAll (root out : Path) (r : Request) (texts : List (Path × String)) :
    List SourceFile → ExceptT Failure m (List CompiledModule)
  | [] => return []
  | file :: files => do
    let w ← ExceptT.lift
      (settingFor r.options (builtText (m := m) root texts file.path) file.program)
    let chunks ← inSource file.source (file.program.chunks w)
    let output := scriptPath root out file.path
    let script := Shell.script r.options chunks
    if r.mode = .emit then writeScript output script r.executable
    let text := Shell.script { r.options with shebang := false } chunks
    let compiled ← compileAll root out r ((file.path, text) :: texts) files
    return ⟨⟨file.path, output⟩, script⟩ :: compiled

/-- Compiles the sources of a directory in the order of their imports. -/
def compileProject (project : Project) (out : Path) (r : Request) :
    ExceptT Failure m (List CompiledModule) :=
  match project.graph.order with
  | .error fault => throw (.unordered fault)
  | .ok order => compileAll project.root out r [] (project.filesAt order)

/-- **Compiles every source below a directory** to its place below
another, in the order of the imports. -/
def buildProject (src out : Path) (r : Request) : ExceptT Failure m (List BuiltModule) := do
  let project ← readProject src
  let compiled ← compileProject project out r
  return compiled.map (·.toBuiltModule)

end ScriptToShell
