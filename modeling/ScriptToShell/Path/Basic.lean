/-!
# Paths

A path is a text whose meaning is the list of its **components**:
repeated and trailing slashes do not count, nor does a `.` other than a
leading one. Operations that cut a path (`parent`, `setExtension`) keep
the spelling of what remains; `join` writes one path behind another.

A path splits into a *lead* (the slash of an absolute path, or a leading
`.`) and the *segments* between the slashes of the rest. A segment that
is empty or `.` is idle: it stands for no component.
-/

namespace ScriptToShell

/-- **A path**, as it is written. -/
structure Path where
  /-- The text of the path. -/
  text : String
deriving DecidableEq, Repr, Inhabited

namespace Path

/-- **A component**: a step a path takes. -/
inductive Component where
  /-- The root of an absolute path. -/
  | root
  /-- A leading `.`. -/
  | current
  /-- A `..`. -/
  | parent
  /-- A step to an entry by its name. -/
  | normal (name : String)
deriving DecidableEq, Repr, Inhabited

namespace Component

/-- The text of a component. -/
def text : Component → String
  | .root => "/"
  | .current => "."
  | .parent => ".."
  | .normal name => name

/-- Components in the order root, `.`, `..`, names by code point. -/
def compare : Component → Component → Ordering
  | .root, .root | .current, .current | .parent, .parent => .eq
  | .root, _ => .lt
  | _, .root => .gt
  | .current, _ => .lt
  | _, .current => .gt
  | .parent, _ => .lt
  | _, .parent => .gt
  | .normal a, .normal b => Ord.compare a b

end Component

/-! ## Lead and segments -/

/-- Splits the characters of a path into its lead and the rest. -/
def splitLead : List Char → List Char × List Char
  | '/' :: cs => (['/'], cs)
  | ['.'] => (['.'], [])
  | '.' :: '/' :: cs => (['.'], '/' :: cs)
  | cs => ([], cs)

/-- The parts of a text between its slashes; there is always at least
one. -/
def segments : List Char → List (List Char)
  | [] => [[]]
  | c :: cs =>
    if c = '/' then [] :: segments cs
    else match segments cs with
      | [] => [[c]]
      | s :: ss => (c :: s) :: ss

/-- Segments put together with a slash between them. -/
def unsegments : List (List Char) → List Char
  | [] => []
  | [s] => s
  | s :: t :: ss => s ++ '/' :: unsegments (t :: ss)

/-- Whether a segment stands for no component. -/
def isIdle (segment : List Char) : Bool := segment = [] || segment = ['.']

/-- The component of a segment that is not idle. -/
def segmentComponent (segment : List Char) : Component :=
  if segment = ['.', '.'] then .parent else .normal (String.ofList segment)

/-- The component of a lead. -/
def leadComponent : List Char → List Component
  | ['/'] => [.root]
  | ['.'] => [.current]
  | _ => []

/-- **The components of a path.** -/
def components (p : Path) : List Component :=
  let (lead, rest) := splitLead p.text.toList
  leadComponent lead ++ ((segments rest).filter (!isIdle ·)).map segmentComponent

/-- Whether a path starts at the root. -/
def isAbsolute (p : Path) : Bool := p.text.toList.head? = some '/'

/-- The segments of a path up to the last one that counts, latest
first. -/
def activeSegments (rest : List Char) : List (List Char) :=
  (segments rest).reverse.dropWhile isIdle

/-! ## Cutting and extending -/

/-- **The path without its last component**, if there is one to take
off. -/
def parent (p : Path) : Option Path :=
  let (lead, rest) := splitLead p.text.toList
  match activeSegments rest with
  | _ :: before =>
    some ⟨String.ofList (lead ++ unsegments (before.dropWhile isIdle).reverse)⟩
  | [] => if lead = ['.'] then some ⟨""⟩ else none

/-- The name of the entry a path leads to, unless it ends in `..` or
names none. -/
def fileName? (p : Path) : Option String :=
  match activeSegments (splitLead p.text.toList).2 with
  | last :: _ => if last = ['.', '.'] then none else some (String.ofList last)
  | [] => none

/-- A file name split at its last dot into stem and extension. A name
whose only dot comes first has no extension. -/
def splitExtension (name : List Char) : List Char × Option (List Char) :=
  let after := (name.reverse.takeWhile (· ≠ '.')).reverse
  let stem := ((name.reverse.dropWhile (· ≠ '.')).drop 1).reverse
  if '.' ∈ name ∧ stem ≠ [] then (stem, some after) else (name, none)

/-- The extension of the entry a path leads to. -/
def extension? (p : Path) : Option String :=
  p.fileName?.bind fun name => (splitExtension name.toList).2.map String.ofList

/-- **The path with another extension.** An empty one takes the
extension off; a path without a file name stays as it is. -/
def withExtension (p : Path) (extension : String) : Path :=
  let (lead, rest) := splitLead p.text.toList
  match activeSegments rest with
  | last :: before =>
    if last = ['.', '.'] then p
    else
      let stem := (splitExtension last).1
      let name := if extension.isEmpty then stem else stem ++ '.' :: extension.toList
      ⟨String.ofList (lead ++ unsegments (before.reverse ++ [name]))⟩
  | [] => p

/-- **One path behind another.** An absolute second path stands alone;
otherwise a slash divides the two unless the first ends in one or is
empty. -/
def join (p q : Path) : Path :=
  if q.isAbsolute then q
  else if p.text.isEmpty || p.text.toList.getLast? = some '/' then ⟨p.text ++ q.text⟩
  else ⟨p.text ++ "/" ++ q.text⟩

/-- The path that takes the given steps in order. -/
def ofComponents (cs : List Component) : Path :=
  cs.foldl (fun p c => p.join ⟨c.text⟩) ⟨""⟩

/-- The rest of a path behind the components of another, if it starts
with them. -/
def stripPrefix? (p base : Path) : Option Path :=
  let cs := p.components
  let bs := base.components
  if cs.take bs.length = bs then some (ofComponents (cs.drop bs.length)) else none

/-- Lists of components in lexicographic order. -/
def compareComponents : List Component → List Component → Ordering
  | [], [] => .eq
  | [], _ :: _ => .lt
  | _ :: _, [] => .gt
  | a :: as, b :: bs => (a.compare b).then (compareComponents as bs)

/-- **Paths in the order of their components.** -/
def le (p q : Path) : Bool := compareComponents p.components q.components ≠ .gt

/-! ## Paths as bytes -/

end Path

end ScriptToShell
