import ScriptToShell.Grammar.Readers

/-!
# Lists of statements

The statements of a program, a block or a function body. A mark among
them is a statement of its own. A run of statements at the head of a list
that are nothing but a string are directives to an engine and are left
out.
-/

namespace ScriptToShell.Grammar

open Scan

/-- **Whether a statement is a directive**: a string alone, not in
parentheses. -/
def isDirective : Stmt → Bool
  | .expression (.literal (.string _) inner) outer => inner.start = outer.start
  | _ => false

/-- A mark as a statement. -/
def markStatement (span : Span) : Stmt := .unsupported markKind span

/-- Statements and marks, as many as there are. -/
def statements (R : Readers) : Reader (List Stmt) := do
  let groups ← Reader.many do
    let marks ← Reader.marks
    let statement ← R.statement
    return marks.map markStatement ++ [statement]
  let last ← Reader.marks
  return groups.flatten ++ last.map markStatement

/-- **Statements in braces**, without directives. A semicolon may be
supplied behind them. -/
def block (R : Readers) (bare : Bool) : Reader (List Stmt) := do
  Reader.literal "\x7b"
  let body ← statements R
  Reader.literal "\x7d"
  Reader.optionalSemicolon bare
  return body.dropWhile isDirective

end ScriptToShell.Grammar
