import ScriptToShell.Shell.Target
import ScriptToShell.Text.Lines

/-!
# Layout of a script

A statement becomes a list of lines, a body is indented by one level for
each statement around it, and the lines of all statements are joined
into the text of a script. Blank lines are never indented, no two of
them follow each other, and a script neither starts nor ends with one.
-/

namespace ScriptToShell.Shell

open Text

/-- The space before a line at a nesting depth. -/
def indentation (unit : Indent) (depth : Nat) : String :=
  match unit with
  | .spaces n => String.ofList (List.replicate (n * depth) ' ')
  | .tabs => String.ofList (List.replicate depth '\t')

/-- A line moved one level to the right; an empty line stays empty. -/
def indentLine (unit : Indent) (line : String) : String :=
  if line = "" then line else indentation unit 1 ++ line

/-- **Lines moved one level to the right.** -/
def indentLines (unit : Indent) (lines : List String) : List String :=
  lines.map (indentLine unit)

/-- Blank lines made empty, and an empty line dropped where it would
start the text or follow another. The flag says whether an empty line
may come next. -/
def squeeze : Bool → List (List Char) → List (List Char)
  | _, [] => []
  | mayBreak, line :: lines =>
    if allBlank line then
      if mayBreak then [] :: squeeze false lines else squeeze false lines
    else line :: squeeze true lines

/-- A list of lines without the empty ones at its end. -/
def dropEmptyEnd (lines : List (List Char)) : List (List Char) :=
  (lines.reverse.dropWhile List.isEmpty).reverse

/-- **The text of a list of chunks.** Chunks that are empty are left out,
the lines of the others follow each other, and runs of blank lines
become one empty line. -/
def joinChunks (chunks : List String) : String :=
  let lines := (chunks.filter (· ≠ "")).flatMap (fun chunk => pieces chunk.toList)
  String.ofList (unpieces (dropEmptyEnd (squeeze false lines)))

/-- **The text of a script**: the interpreter line if it is asked for, an
empty line, the chunks, and a line end. -/
def script (options : Options) (chunks : List String) : String :=
  let body := joinChunks chunks
  let head := if options.shebang then options.target.shebang ++ "\n" else ""
  if body = "" then head
  else (if options.shebang then head ++ "\n" else "") ++ body ++ "\n"

end ScriptToShell.Shell
