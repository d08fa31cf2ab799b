import ScriptToShell.Store.Basic
import ScriptToShell.Text.Lines

/-!
# Files in memory

A `FileTree` holds files and directories under their places, a place
being the names on the way from the root. A path is followed name by
name: every name but the last must be that of a directory, a point stays,
and two points go up. A slash at the end asks for a directory.
-/

namespace ScriptToShell

/-- A file: its bytes, and whether it may be executed. -/
structure File where
  /-- The bytes. -/
  contents : ByteArray
  /-- Whether the file may be executed. -/
  executable : Bool := false
deriving Inhabited

/-- **A tree of files.** -/
structure FileTree where
  /-- The files with their places. -/
  files : List (List String × File) := []
  /-- The places of the directories below the root. -/
  directories : List (List String) := []
  /-- The place where relative paths start. -/
  current : List String := []
deriving Inhabited

namespace FileTree

/-- **Where a path leads**: to something that exists, or to a free name in
a directory. -/
inductive Spot where
  | taken (place : List String) (kind : FileKind)
  | free (directory : List String) (name : String)

/-- The file at a place. -/
def fileAt? (t : FileTree) (place : List String) : Option File :=
  (t.files.find? (·.1 = place)).map (·.2)

/-- What is at a place. -/
def kindAt? (t : FileTree) (place : List String) : Option FileKind :=
  if place = [] || t.directories.contains place then some .directory
  else (t.fileAt? place).map fun _ => .file

/-- Follows the segments of a path from a place. -/
def follow (t : FileTree) (place : List String) : List (List Char) → Except Refusal Spot
  | [] =>
    match t.kindAt? place with
    | some kind => .ok (.taken place kind)
    | none => .error .notFound
  | segment :: rest =>
    if t.kindAt? place ≠ some .directory then .error .notDirectory
    else if Path.isIdle segment then t.follow place rest
    else if segment = ['.', '.'] then t.follow place.dropLast rest
    else
      let next := place ++ [String.ofList segment]
      if (t.kindAt? next).isSome then t.follow next rest
      else if rest.all (· = []) then .ok (.free place (String.ofList segment))
      else .error .notFound

/-- **Follows a path.** An empty path leads nowhere. -/
def locate (t : FileTree) (path : Path) : Except Refusal Spot :=
  if path.text.isEmpty then .error .notFound
  else t.follow (if path.isAbsolute then [] else t.current) (Path.segments path.text.toList)

/-- The absolute path of a place. -/
def pathOf (place : List String) : Path := ⟨"/" ++ Text.joinWith "/" place⟩

/-- What a path leads to. -/
def kind? (t : FileTree) (path : Path) : Option FileKind :=
  match t.locate path with
  | .ok (.taken _ kind) => some kind
  | _ => none

/-- The text of a file. -/
def readText (t : FileTree) (path : Path) : Except Refusal String := do
  match ← t.locate path with
  | .taken place .file =>
    match (t.fileAt? place).bind (String.fromUTF8? ·.contents) with
    | some text => .ok text
    | none => .error .notText
  | .taken _ .directory => .error .isDirectory
  | .free .. => .error .notFound

/-- The canonical path to where a path leads. -/
def canonical (t : FileTree) (path : Path) : Except Refusal Path := do
  match ← t.locate path with
  | .taken place _ => .ok (pathOf place)
  | .free .. => .error .notFound

/-- The files at or below a path. -/
def filesUnder (t : FileTree) (path : Path) : List Path :=
  match t.locate path with
  | .ok (.taken place _) =>
    (t.files.filter (place.isPrefixOf ·.1)).map fun (p, _) => pathOf p
  | _ => []

/-- Creates a directory. -/
def makeDirectory (t : FileTree) (path : Path) : Except Refusal FileTree := do
  match ← t.locate path with
  | .taken .. => .error .alreadyExists
  | .free directory name => .ok { t with directories := (directory ++ [name]) :: t.directories }

/-- Puts a file at a place. -/
def put (t : FileTree) (place : List String) (file : File) : FileTree :=
  { t with files := (place, file) :: t.files.filter (·.1 ≠ place) }

/-- The path without the slashes at its end; the root keeps one. -/
def withoutSlashes (path : Path) : Path :=
  let kept := (path.text.toList.reverse.dropWhile (· = '/')).reverse
  ⟨if kept = [] then "/" else String.ofList kept⟩

/-- Creates or replaces the text of a file, which stays executable if it
was. -/
def writeText (t : FileTree) (path : Path) (text : String) : Except Refusal FileTree := do
  if path.text.toList.getLast? = some '/' then
    let _ ← t.locate (withoutSlashes path)
    .error .isDirectory
  else
    match ← t.locate path with
    | .taken _ .directory => .error .isDirectory
    | .taken place .file =>
      .ok (t.put place ⟨text.toUTF8, (t.fileAt? place).any (·.executable)⟩)
    | .free directory name => .ok (t.put (directory ++ [name]) ⟨text.toUTF8, false⟩)

/-- Makes a file executable. -/
def markExecutable (t : FileTree) (path : Path) : FileTree :=
  match t.locate path with
  | .ok (.taken place .file) =>
    match t.fileAt? place with
    | some file => t.put place { file with executable := true }
    | none => t
  | _ => t

instance : FileStore (StateM FileTree) where
  kind? path := return (← get).kind? path
  readText path := return (← get).readText path
  canonical path := return (← get).canonical path
  filesUnder path := return .ok ((← get).filesUnder path)
  makeDirectory path := FileStore.update (·.makeDirectory path)
  writeText path text := FileStore.update (·.writeText path text)
  markExecutable path := modify (·.markExecutable path)

end FileTree

end ScriptToShell
