import ScriptToShell.Scan.Number
import ScriptToShell.Scan.Quoted
import ScriptToShell.Scan.Semicolon
import ScriptToShell.Tree.Basic

/-!
# Open recursion of the grammar

The rules of the grammar refer to each other in circles: an expression may
hold a function, a function holds statements, a statement holds
expressions. Each rule is written as a reader that takes the readers for
what it contains as an argument, a `Readers`, and uses them only behind at
least one character of its own. The circle is closed once for all rules by
a bound on the depth, which the length of the text provides.

A reader for a node starts at the node's first character and stops behind
its last. The space in between is passed over by the one who reads on:
with `trivia` behind an operand, where an operator could come, and with
`gap` everywhere else, where a mark may stand.
-/

namespace ScriptToShell.Grammar

open Scan

/-- **What may become of an operand**: a name, an access to a property or
an operand in parentheses can be assigned to. -/
inductive Form where
  | name | member | subscript | parenthesized | other
deriving DecidableEq, Repr, Inhabited

/-- **An operand that has been read**, with its form. -/
structure Operand where
  /-- The expression. -/
  expr : Expr
  /-- Its form. -/
  form : Form
deriving Repr, Inhabited

/-- **The readers for what a rule contains.** A flag tells the readers of
expressions whether a semicolon may be supplied behind them. -/
structure Readers where
  /-- An operand with its prefix and suffix operators. -/
  operand : Bool → Reader Operand
  /-- An expression whose operators bind at least as strong as a bound. -/
  expression : Bool → Nat → Reader Operand
  /-- A pattern with an optional default. -/
  pattern : Reader Pattern
  /-- An element of markup. -/
  element : Reader Unit
  /-- A statement. -/
  statement : Reader Stmt

namespace Readers

/-- The readers that always fail. -/
def stuck : Readers :=
  ⟨fun _ => failure, fun _ _ => failure, failure, failure, failure⟩

/-- An expression of any operators other than the comma. -/
def assignment (R : Readers) (semi : Bool) : Reader Operand := R.expression semi 0

end Readers

/-- The kind of a mark. -/
def markKind : NodeKind := .unrecognized "html_comment"

/-- Passes over the space behind an operand and reads a symbol. -/
def symbol (text : String) : Reader Unit := do
  Reader.trivia
  Reader.literal text

/-- Passes over the space between other tokens and reads a symbol. -/
def nextSymbol (text : String) : Reader Unit := do
  Reader.gap
  Reader.literal text

/-- Passes over the space between other tokens and reads a keyword. -/
def nextKeyword (word : String) : Reader Unit := do
  Reader.gap
  Reader.keyword word

/-- The span from an offset to the place of the reader. -/
def spanFrom (start : Nat) : Reader Span := return ⟨start, ← Reader.pos⟩

/-- An expression of a kind that is not supported, from an offset to the
place of the reader. -/
def unsupportedFrom (kind : NodeKind) (start : Nat) : Reader Operand :=
  return ⟨.unsupported kind (← spanFrom start), .other⟩

/-- Reads an equals sign that is not the start of a longer symbol. -/
def equalsSign : Reader Unit := do
  Reader.trivia
  Reader.literal "="
  let next := (← Reader.ahead).head?
  Reader.require (next ≠ some '=' && next ≠ some '>')

end ScriptToShell.Grammar
