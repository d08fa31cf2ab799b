import ScriptToShell.Path.Basic

/-!
# File stores

A `FileStore` is a place where files are read and written: a disk, or a
tree of files held in memory. What is built on it is the same for both.
-/

namespace ScriptToShell

/-- **Why a store turns down a request.** -/
inductive Refusal where
  | notFound
  | alreadyExists
  | notDirectory
  | isDirectory
  /-- There is no right to do this. -/
  | denied
  /-- Links lead to links, again and again. -/
  | tooManyLinks
  /-- The bytes of a file are not text. -/
  | notText
  | other (message : String)
deriving DecidableEq, Repr, Inhabited

namespace Refusal

/-- The message of a refusal. -/
def message : Refusal → String
  | .notFound => "No such file or directory (os error 2)"
  | .alreadyExists => "File exists (os error 17)"
  | .notDirectory => "Not a directory (os error 20)"
  | .isDirectory => "Is a directory (os error 21)"
  | .denied => "Permission denied (os error 13)"
  | .tooManyLinks => "Too many levels of symbolic links (os error 40)"
  | .notText => "stream did not contain valid UTF-8"
  | .other message => message

/-- A refusal met at one path while the files below another are listed. -/
def whileListing (path : Path) (reason : Refusal) : Refusal :=
  .other ("IO error for operation on " ++ path.text ++ ": " ++ reason.message)

end Refusal

/-- What a path leads to. -/
inductive FileKind where
  | file | directory
deriving DecidableEq, Repr, Inhabited

/-- **A store of files.** -/
class FileStore (m : Type → Type) where
  /-- What a path leads to, if it leads anywhere. -/
  kind? : Path → m (Option FileKind)
  /-- The text of a file. -/
  readText : Path → m (Except Refusal String)
  /-- The absolute path without detours to where a path leads. -/
  canonical : Path → m (Except Refusal Path)
  /-- The files at or below a canonical path, in any order. Links are not
  followed, and they are no files. -/
  filesUnder : Path → m (Except Refusal (List Path))
  /-- Creates a directory in an existing one. -/
  makeDirectory : Path → m (Except Refusal Unit)
  /-- Creates or replaces the text of a file. -/
  writeText : Path → String → m (Except Refusal Unit)
  /-- Makes a file executable. -/
  markExecutable : Path → m Unit

namespace FileStore

variable {m : Type → Type} [Monad m] [FileStore m]

/-- Whether a path leads to a directory. -/
def isDirectory (path : Path) : m Bool := do
  return (← kind? path) = some .directory

/-- Whether a path leads to a file. -/
def isFile (path : Path) : m Bool := do
  return (← kind? path) = some .file

/-- Creates a directory; one that exists already is as good. -/
def ensureDirectory (path : Path) : m (Except Refusal Unit) := do
  match ← makeDirectory path with
  | .ok () => return .ok ()
  | .error refusal => return if ← isDirectory path then .ok () else .error refusal

/-- Creates a directory and at most `limit` missing ones above it. -/
def makeDirectoriesUpTo : Nat → Path → m (Except Refusal Unit)
  | 0, _ => return .error (.other "failed to create whole tree")
  | limit + 1, path => do
    if path.text.isEmpty then return .ok ()
    match ← ensureDirectory path with
    | .error .notFound =>
      match path.parent with
      | none => return .error (.other "failed to create whole tree")
      | some above =>
        match ← makeDirectoriesUpTo limit above with
        | .error refusal => return .error refusal
        | .ok () => ensureDirectory path
    | outcome => return outcome

/-- **Creates a directory and the missing ones above it.** Each step up
takes off at least one character, so the length of the path bounds
them. -/
def makeDirectories (path : Path) : m (Except Refusal Unit) :=
  makeDirectoriesUpTo (path.text.length + 1) path

/-- Takes over a changed store, or keeps the old one behind a refusal. -/
def update {S : Type} (change : S → Except Refusal S) : StateM S (Except Refusal Unit) := do
  match change (← get) with
  | .ok s =>
    set s
    return .ok ()
  | .error refusal => return .error refusal

end FileStore

end ScriptToShell
