import ScriptToShell.Grammar.Readers

/-!
# Lists of expressions

Expressions with commas between them: sequences, the arguments of a call
and the elements of an array. The arguments may have holes, which leave
nothing behind, while a mark among them is an argument of its own.
-/

namespace ScriptToShell.Grammar

open Scan

/-- One or more expressions with commas between them: the first, and the
number of the others. -/
def expressionList (R : Readers) (semi : Bool) : Reader (Expr × Nat) := do
  let first ← R.assignment semi
  let more ← Reader.many do
    symbol ","
    Reader.gap
    R.assignment semi
  return (first.expr, more.length)

/-- **One or more expressions.** More than one are a sequence, which is
not supported. -/
def expressions (R : Readers) (semi : Bool) : Reader Expr := do
  let start ← Reader.pos
  match ← expressionList R semi with
  | (first, 0) => return first
  | _ => return .unsupported .sequenceExpression (← spanFrom start)

/-- **An expression in parentheses.** The parentheses leave no node,
except that a sequence takes their span. A mark behind the opening
parenthesis is taken for the expression. -/
def parenthesized (R : Readers) : Reader Expr := do
  let start ← Reader.pos
  Reader.literal "("
  let marks ← Reader.marks
  let (first, others) ← expressionList R false
  symbol ")"
  match marks, others with
  | mark :: _, _ => return .unsupported markKind mark
  | [], 0 => return first
  | [], _ => return .unsupported .sequenceExpression (← spanFrom start)

/-- An argument of a call or an element of an array. -/
def item (R : Readers) : Reader Expr := (do
    let start ← Reader.pos
    Reader.literal "..."
    Reader.gap
    let _ ← R.assignment false
    return .unsupported .spreadElement (← spanFrom start)) <|>
  (return (← R.assignment false).expr)

/-- An item or a hole, with the marks before it. -/
def slot (R : Readers) : Reader (List Expr) := do
  let marks ← Reader.marks
  let value ← Reader.option (item R)
  return marks.map (.unsupported markKind ·) ++ value.toList

/-- Items between two brackets. -/
def items (R : Readers) (opening closing : String) : Reader (List Expr) := do
  Reader.literal opening
  let first ← slot R
  let more ← Reader.many do
    symbol ","
    slot R
  symbol closing
  return first ++ more.flatten

/-- **The arguments of a call.** -/
def arguments (R : Readers) : Reader (List Expr) := items R "(" ")"

end ScriptToShell.Grammar
