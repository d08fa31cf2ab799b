import ScriptToShell.Store.Tree

/-!
# Files with links

A `Volume` keeps names and files apart, as a disk does. A name stands for a
file, for a directory, or for a link that holds a path, and several names may
stand for one file. A path is followed as in a `FileTree`, but behind the name
of a link the way goes on with the path that the link holds. There are files
that cannot be read, and directories whose entries cannot be listed.
-/

namespace ScriptToShell

/-- **What a name stands for.** -/
inductive Entry where
  /-- A file, by its number. -/
  | file (number : Nat)
  | directory
  /-- A link to where a path leads. -/
  | link (target : Path)
deriving DecidableEq, Repr, Inhabited

/-- The number of the file that a name stands for. -/
def Entry.number? : Entry → Option Nat
  | .file number => some number
  | _ => none

/-- **A volume of files.** -/
structure Volume where
  /-- What the names below the root stand for, by their places. -/
  entries : List (List String × Entry) := []
  /-- The files, by their numbers. -/
  files : List File := []
  /-- The numbers of the files that cannot be read. -/
  unreadable : List Nat := []
  /-- The places of the directories that cannot be listed. -/
  unlisted : List (List String) := []
  /-- The place where relative paths start. -/
  current : List String := []
deriving Inhabited

namespace Volume

/-- **Where a path leads**: to something that exists, or to a free name in
a directory, with a slash behind it or without one. -/
inductive Spot where
  | taken (place : List String) (kind : FileKind)
  | free (directory : List String) (name : String) (slash : Bool)

/-- What the name at a place stands for. -/
def entryAt? (v : Volume) (place : List String) : Option Entry :=
  if place = [] then some .directory else (v.entries.find? (·.1 = place)).map (·.2)

/-- The number of the file at a place. -/
def numberAt? (v : Volume) (place : List String) : Option Nat :=
  (v.entryAt? place).bind (·.number?)

/-- Follows the segments of a path from a place up to the first link, behind
which `beyond` goes on. A link that ends the path is followed only if
`through` says so. -/
def walk (v : Volume) (through : Bool)
    (beyond : List String → List (List Char) → Except Refusal Spot) (place : List String) :
    List (List Char) → Except Refusal Spot
  | [] =>
    match v.entryAt? place with
    | some .directory => .ok (.taken place .directory)
    | some (.file _) => .ok (.taken place .file)
    | _ => .error .notFound
  | segment :: rest =>
    if v.entryAt? place ≠ some .directory then .error .notDirectory
    else if Path.isIdle segment then v.walk through beyond place rest
    else if segment = ['.', '.'] then v.walk through beyond place.dropLast rest
    else
      let next := place ++ [String.ofList segment]
      match v.entryAt? next with
      | some (.link target) =>
        if !through && rest.all (· = []) then .ok (.taken next .file)
        else beyond (if target.isAbsolute then [] else place)
          (Path.segments target.text.toList ++ rest)
      | some _ => v.walk through beyond next rest
      | none =>
        if rest.all (· = []) then .ok (.free place (String.ofList segment) !rest.isEmpty)
        else .error .notFound

/-- Follows the segments of a path from a place, over at most `limit`
links. -/
def follow (v : Volume) (through : Bool) :
    Nat → List String → List (List Char) → Except Refusal Spot
  | 0 => v.walk through fun _ _ => .error .tooManyLinks
  | limit + 1 => v.walk through (v.follow through limit)

/-- How many links a path may lead over. -/
def maxLinks : Nat := 40

/-- **Follows a path.** An empty path leads nowhere. -/
def locate (v : Volume) (through : Bool) (path : Path) : Except Refusal Spot :=
  if path.text.isEmpty then .error .notFound
  else v.follow through maxLinks (if path.isAbsolute then [] else v.current)
    (Path.segments path.text.toList)

/-- The number of the file that a path leads to. -/
def number? (v : Volume) (path : Path) : Option Nat :=
  match v.locate true path with
  | .ok (.taken place .file) => v.numberAt? place
  | _ => none

/-- What a path leads to. -/
def kind? (v : Volume) (path : Path) : Option FileKind :=
  match v.locate true path with
  | .ok (.taken _ kind) => some kind
  | _ => none

/-- The text of a file. -/
def readText (v : Volume) (path : Path) : Except Refusal String := do
  match ← v.locate true path with
  | .taken place .file =>
    match v.numberAt? place with
    | none => .error .notFound
    | some number =>
      if v.unreadable.contains number then .error .denied
      else
        match v.files[number]?.bind (String.fromUTF8? ·.contents) with
        | some text => .ok text
        | none => .error .notText
  | .taken _ .directory => .error .isDirectory
  | .free .. => .error .notFound

/-- The canonical path to where a path leads. -/
def canonical (v : Volume) (path : Path) : Except Refusal Path := do
  match ← v.locate true path with
  | .taken place _ => .ok (FileTree.pathOf place)
  | .free .. => .error .notFound

/-- The files at or below a path, if all directories there can be listed. -/
def filesUnder (v : Volume) (path : Path) : Except Refusal (List Path) := do
  match ← v.locate true path with
  | .free .. => .error .notFound
  | .taken place _ =>
    -- the directories are listed in order, so the first one that is closed is met
    match (v.unlisted.filter (place.isPrefixOf ·)).map FileTree.pathOf with
    | directory :: others =>
      let first := others.foldl (fun a b => if Path.le a b then a else b) directory
      .error (Refusal.denied.whileListing first)
    | [] =>
      let found := v.entries.filter fun (p, entry) => place.isPrefixOf p && entry.number?.isSome
      .ok (found.map fun (p, _) => FileTree.pathOf p)

/-- Adds a name. -/
def add (v : Volume) (place : List String) (entry : Entry) : Volume :=
  { v with entries := (place, entry) :: v.entries }

/-- Changes a file, under whatever names it has. -/
def modifyFile (v : Volume) (number : Nat) (change : File → File) : Volume :=
  { v with files := v.files.modify number change }

/-- Creates a directory. A link is not followed to where it leads. -/
def makeDirectory (v : Volume) (path : Path) : Except Refusal Volume := do
  match ← v.locate false path with
  | .taken .. => .error .alreadyExists
  | .free directory name _ => .ok (v.add (directory ++ [name]) .directory)

/-- Creates or replaces the text of a file. A file that is created gets the
next number. -/
def writeText (v : Volume) (path : Path) (text : String) : Except Refusal Volume := do
  if path.text.toList.getLast? = some '/' then
    let _ ← v.locate true (FileTree.withoutSlashes path)
    .error .isDirectory
  else
    match ← v.locate true path with
    | .taken _ .directory => .error .isDirectory
    | .taken place .file =>
      match v.numberAt? place with
      | none => .error .notFound
      | some number => .ok (v.modifyFile number ({ · with contents := text.toUTF8 }))
    | .free _ _ true => .error .isDirectory
    | .free directory name false =>
      .ok { v.add (directory ++ [name]) (.file v.files.length) with
        files := v.files ++ [⟨text.toUTF8, false⟩] }

/-- Makes a file executable. -/
def markExecutable (v : Volume) (path : Path) : Volume :=
  match v.number? path with
  | some number => v.modifyFile number ({ · with executable := true })
  | none => v

instance : FileStore (StateM Volume) where
  kind? path := return (← get).kind? path
  readText path := return (← get).readText path
  canonical path := return (← get).canonical path
  filesUnder path := return (← get).filesUnder path
  makeDirectory path := FileStore.update (·.makeDirectory path)
  writeText path text := FileStore.update (·.writeText path text)
  markExecutable path := modify (·.markExecutable path)

end Volume

end ScriptToShell
