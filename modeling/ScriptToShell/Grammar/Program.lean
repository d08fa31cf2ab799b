import ScriptToShell.Emit.Fault
import ScriptToShell.Grammar.Statement

/-!
# Programs

The rules of the grammar are tied together: `readers n` reads what nests
at most `n` levels deep. A rule uses the readers for what it contains
behind a character of its own, so the length of a text bounds the depth of
what it can hold, and the reader of a whole program needs no bound.
-/

namespace ScriptToShell.Grammar

open Scan

/-- One level of the grammar around another. -/
def level (R : Readers) : Readers where
  operand := operandRule R
  expression := expressionRule R
  pattern := patternRule R
  element := elementRule R
  statement := statementRule R

/-- **The readers for what nests at most so deep.** -/
def readers : Nat → Readers
  | 0 => .stuck
  | depth + 1 => level (readers depth)

/-- The line that names an interpreter, which may come first in a
program. -/
def hashBang? : Lexeme
  | '#' :: '!' :: cs => some (2 + (cs.takeWhile (· ≠ '\n')).length)
  | _ => none

/-- Reads the line that names an interpreter, and gives the marks before
it. -/
def interpreterLine : Reader (List Span) := do
  let marks ← Reader.marks
  let _ ← Reader.token hashBang?
  return marks

/-- **The statements of a program**, as many as can be read. Directives
count only if no interpreter line comes before them. -/
def programBody (R : Readers) : Reader (List Stmt) := do
  match ← Reader.option interpreterLine with
  | some marks => return marks.map markStatement ++ (← statements R)
  | none => return (← statements R).dropWhile isDirective

end ScriptToShell.Grammar

namespace ScriptToShell

open Scan Grammar

/-- The fault of a text that goes on with no statement at an offset. -/
def Fault.malformedAt (text : String) (pos : Nat) : Fault :=
  let (line, column) := SourceMap.lineCol ⟨"", text⟩ pos
  .malformed "a statement cannot be read" line column ⟨pos, pos + 1⟩

/-- **The program a text spells.** Its span starts at the first token or
comment and ends with the text. A text is malformed where its statements
cannot be read on, and at a null character, since nothing in a text may hold
one: no token and no comment. -/
def Program.parse (text : String) : Except Fault Program :=
  let start := Cursor.ofText text.toList
  if '\x00' ∈ text.toList then
    .error (.malformedAt text (byteLength (text.toList.takeWhile (· ≠ '\x00'))))
  else match programBody (readers (text.toList.length + 1)) start with
    | none => .error (.malformedAt text 0)
    | some (body, stop) =>
      if stop.rest.isEmpty then
        .ok ⟨body, (start.skip (spaces start.rest)).pos, stop.pos⟩
      else .error (.malformedAt text stop.pos)

end ScriptToShell
