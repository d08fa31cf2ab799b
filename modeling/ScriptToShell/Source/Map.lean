import ScriptToShell.Source.Span

/-!
# Diagnostics against a source text

A `SourceMap` is a named source text. It turns a byte offset into a line
and a column, both counted from one, and prints a message with the line
it is about and a marker under the spanned characters.

A line ends at a line feed and nowhere else. An offset behind the text
counts as its end, and an offset inside a character stands in column
one of its line.
-/

namespace ScriptToShell

/-- **A source text with the name it is reported under.** -/
structure SourceMap where
  /-- The name shown before a line number. -/
  name : String
  /-- The text the offsets point into. -/
  text : String
deriving Repr, Inhabited

namespace SourceMap

/-- The byte offsets behind each line feed of a text that starts at
the given offset. -/
def startsAfterFeeds : Nat → List Char → List Nat
  | _, [] => []
  | offset, c :: cs =>
    let next := offset + c.utf8Size
    if c = '\n' then next :: startsAfterFeeds next cs else startsAfterFeeds next cs

/-- The byte offsets at which the lines start. -/
def lineStarts (m : SourceMap) : Array Nat :=
  (0 :: startsAfterFeeds 0 m.text.toList).toArray

/-- The number of bytes of the text. -/
def size (m : SourceMap) : Nat := byteLength m.text.toList

/-- The number of characters between two offsets, if both stand between
two characters. -/
def charsBetween? (m : SourceMap) (start stop : Nat) : Option Nat :=
  (slice? m.text.toList start stop).map List.length

/-- What becomes of a search in a table. -/
inductive Sought where
  /-- The number is the entry at an index. -/
  | found (index : Nat)
  /-- The number is no entry; the first greater one has this index. -/
  | missing (index : Nat)
deriving DecidableEq, Repr

/-- **Binary search** for a number in an increasing table, with the
entries before `low` known to be less and those from `high` on to be
greater. -/
def searchBetween (table : Array Nat) (target low high : Nat) (bounded : high ≤ table.size) :
    Sought :=
  if h : low < high then
    let middle := low + (high - low) / 2
    have : middle < table.size := by omega
    if table[middle] = target then .found middle
    else if table[middle] < target then searchBetween table target (middle + 1) high bounded
    else searchBetween table target low middle (by omega)
  else .missing low
termination_by high - low

/-- The search for an offset among the starts of lines. -/
def search (m : SourceMap) (pos : Nat) : Sought :=
  searchBetween m.lineStarts pos 0 m.lineStarts.size (Nat.le_refl _)

/-- The number of lines before the one an offset stands in, which is the
last one that starts at or before the offset. -/
def lineIndex (m : SourceMap) (pos : Nat) : Nat :=
  match m.search pos with
  | .found index => index
  | .missing index => index - 1

/-- **Line and column of a byte offset**, counted from one. -/
def lineCol (m : SourceMap) (pos : Nat) : Nat × Nat :=
  let pos := min pos m.size
  let index := m.lineIndex pos
  let lineStart := m.lineStarts[index]?.getD 0
  (index + 1, (m.charsBetween? lineStart pos).getD 0 + 1)

/-- The text of a line, counted from one and without its line feed; no
text for a line that does not exist. -/
def lineText (m : SourceMap) (line : Nat) : String :=
  match line with
  | 0 => ""
  | i + 1 =>
    match m.lineStarts[i]? with
    | none => ""
    | some start =>
      let stop := match m.lineStarts[i + 1]? with
        | some next => next - 1
        | none => m.size
      String.ofList ((slice? m.text.toList start stop).getD [])

/-- The marks under a span: one `^` for its first character and, if it
stays on its line, a `~` for each further one. -/
def marks (m : SourceMap) (span : Span) : String :=
  let (startLine, _) := m.lineCol span.start
  let (stopLine, _) := m.lineCol span.stop
  if startLine = stopLine then
    let count := (m.charsBetween? span.start (min span.stop m.size)).getD 0
    String.ofList ('^' :: List.replicate (max 1 count - 1) '~')
  else "^"

/-- **A message with its line and a marker under the span.** -/
def diagnostic (m : SourceMap) (message : String) (span : Span) : String :=
  let (line, column) := m.lineCol span.start
  m.name ++ ":" ++ toString line ++ ":" ++ toString column ++ ": " ++ message ++ "\n"
    ++ m.lineText line ++ "\n"
    ++ String.ofList (List.replicate (column - 1) ' ') ++ m.marks span

end SourceMap

end ScriptToShell
