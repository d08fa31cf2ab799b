import ScriptToShell.Store.Basic

/-!
# Files on disk

The store behind the command: the files of the machine it runs on.
-/

namespace ScriptToShell.Disk

/-- What the system says, as a refusal. -/
def refusal (error : IO.Error) : Refusal :=
  match error with
  | .noFileOrDirectory .. => .notFound
  | .alreadyExists .. => .alreadyExists
  | .permissionDenied .. => .denied
  | .inappropriateType _ code _ =>
    if code = 20 then .notDirectory
    else if code = 21 then .isDirectory
    else .other (toString error)
  | _ => .other (toString error)

/-- Runs an action and keeps what goes wrong as a refusal. -/
def attempt {α : Type} (action : IO α) : IO (Except Refusal α) := do
  try
    return .ok (← action)
  catch error => return .error (refusal error)

/-- What a path leads to. -/
def kind? (path : Path) : IO (Option FileKind) := do
  try
    let place ← IO.FS.realPath path.text
    return some (if ← place.isDir then .directory else .file)
  catch _ => return none

/-- The text of a file. -/
def readText (path : Path) : IO (Except Refusal String) := do
  match ← attempt (IO.FS.readBinFile path.text) with
  | .error refusal => return .error refusal
  | .ok bytes =>
    match String.fromUTF8? bytes with
    | some text => return .ok text
    | none => return .error .notText

/-- The canonical path to where a path leads. -/
def canonical (path : Path) : IO (Except Refusal Path) := attempt do
  return ⟨(← IO.FS.realPath path.text).toString⟩

/-- How many directories may lie within each other: a path to a deeper one
would be longer than the system allows. -/
def maxDepth : Nat := 4096

/-- The files at or below a path with at most `limit` directories within each
other, in the order of their names. Links are left out. -/
def filesUpTo : Nat → Path → IO (Except Refusal (List Path))
  | 0, _ => return .ok []
  | limit + 1, path => do
    match ← attempt (do (← IO.FS.realPath path.text).symlinkMetadata) with
    | .error refusal => return .error (refusal.whileListing path)
    | .ok { type := .file, .. } => return .ok [path]
    | .ok { type := .dir, .. } =>
      match ← attempt (do (← IO.FS.realPath path.text).readDir) with
      | .error refusal => return .error (refusal.whileListing path)
      | .ok entries =>
        let names := entries.toList.mergeSort fun a b => a.fileName ≤ b.fileName
        let below ← names.mapM fun entry => do
          let path : Path := ⟨entry.path.toString⟩
          match ← attempt entry.path.symlinkMetadata with
          | .error refusal => return .error (refusal.whileListing path)
          | .ok { type := .symlink, .. } => return .ok []
          | .ok _ => filesUpTo limit path
        return (below.mapM id).map List.flatten
    | .ok _ => return .ok []

/-- The rights of a script that is made executable. The rights that a file
already has cannot be asked for. -/
def scriptRights : IO.FileRight where
  user := { read := true, write := true, execution := true }
  group := { read := true, execution := true }
  other := { read := true, execution := true }

/-- Makes a file executable if that can be done. -/
def markExecutable (path : Path) : IO Unit := do
  let _ ← attempt (IO.setAccessRights path.text scriptRights)

instance : FileStore IO where
  kind? := kind?
  readText := readText
  canonical := canonical
  filesUnder := filesUpTo maxDepth
  makeDirectory path := attempt (IO.FS.createDir path.text)
  writeText path text := attempt (IO.FS.writeFile path.text text)
  markExecutable := markExecutable

end ScriptToShell.Disk
