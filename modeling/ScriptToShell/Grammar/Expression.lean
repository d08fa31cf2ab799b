import ScriptToShell.Grammar.Operand

/-!
# Operators between operands

Operands are joined by operators of twelve strengths. The loosest level
holds `??` and the conditional with its question mark; then come `||`,
`&&`, the bitwise operators, equality, order, shifts, sums, products and,
strongest of all, powers. Powers group to the right, all others to the
left; the last branch of a conditional takes what it can.
-/

namespace ScriptToShell.Grammar

open Scan

/-- **A connective**: what an operator between two operands makes of
them. -/
inductive Connective where
  | binary (op : BinaryOp)
  | logical (op : LogicalOp)
  /-- The first operand that is there. -/
  | coalesce
deriving DecidableEq, Repr, Inhabited

namespace Connective

/-- How strong a connective binds. -/
def strength : Connective → Nat
  | .coalesce => 1
  | .logical .or => 2
  | .logical .and => 3
  | .binary .bitOr => 4
  | .binary .bitXor => 5
  | .binary .bitAnd => 6
  | .binary .equal | .binary .strictEqual | .binary .notEqual | .binary .strictNotEqual => 7
  | .binary .less | .binary .lessEqual | .binary .greater | .binary .greaterEqual
  | .binary .isIn | .binary .instanceOf => 8
  | .binary .shiftLeft | .binary .shiftRight | .binary .shiftRightUnsigned => 9
  | .binary .add | .binary .sub => 10
  | .binary .mul | .binary .div | .binary .mod => 11
  | .binary .exp => 12

/-- The bound for the operators of the right operand: a power may be its
own right operand. -/
def rightBound (c : Connective) : Nat :=
  if c = .binary .exp then c.strength else c.strength + 1

/-- The expression a connective makes. -/
def apply (c : Connective) (left right : Expr) (span : Span) : Expr :=
  match c with
  | .binary op => .binary op left right span
  | .logical op => .logical op left right span
  | .coalesce => .unsupported .logicalExpression span

end Connective

/-- The symbols that may stand behind an operand and are made of the
characters of operators, longest first, with the connective each
denotes. -/
def operatorSymbols : List (String × Option Connective) :=
  [(">>>=", none),
   ("===", some (.binary .strictEqual)), ("!==", some (.binary .strictNotEqual)),
   (">>>", some (.binary .shiftRightUnsigned)),
   ("**=", none), ("<<=", none), (">>=", none), ("&&=", none), ("||=", none), ("??=", none),
   ("==", some (.binary .equal)), ("!=", some (.binary .notEqual)),
   ("<=", some (.binary .lessEqual)), (">=", some (.binary .greaterEqual)),
   ("&&", some (.logical .and)), ("||", some (.logical .or)), ("??", some .coalesce),
   ("<<", some (.binary .shiftLeft)), (">>", some (.binary .shiftRight)),
   ("**", some (.binary .exp)),
   ("=>", none), ("++", none), ("--", none), ("+=", none), ("-=", none), ("*=", none), ("/=", none),
   ("%=", none), ("&=", none), ("|=", none), ("^=", none),
   ("+", some (.binary .add)), ("-", some (.binary .sub)), ("*", some (.binary .mul)),
   ("/", some (.binary .div)), ("%", some (.binary .mod)), ("&", some (.binary .bitAnd)),
   ("|", some (.binary .bitOr)), ("^", some (.binary .bitXor)), ("<", some (.binary .less)),
   (">", some (.binary .greater))]

/-- The connective at the head of a text, with the length of its
symbol. -/
def connective? (cs : List Char) : Option (Connective × Nat) :=
  match operatorSymbols.find? (·.1.toList.isPrefixOf cs) with
  | some (text, found) => found.map (·, text.length)
  | none =>
    match headName? cs with
    | some "in" => some (.binary .isIn, 2)
    | some "instanceof" => some (.binary .instanceOf, 10)
    | _ => none

/-- Reads a connective that binds at least as strong as a bound. -/
def connective (bound : Nat) : Reader Connective := do
  Reader.trivia
  match connective? (← Reader.ahead) with
  | some (c, length) =>
    Reader.require (bound ≤ c.strength)
    let _ ← Reader.take length
    return c
  | none => failure

/-- An operand joined with the next one. -/
def joined (R : Readers) (semi : Bool) (bound start : Nat) (left : Operand) : Reader Operand := do
  let c ← connective bound
  Reader.gap
  let right ← R.expression semi c.rightBound
  operandFrom start .other (c.apply left.expr right.expr)

/-- The branches of a conditional behind its test. A question mark before
a point belongs to a conditional only if a digit follows. -/
def conditional (R : Readers) (semi : Bool) (bound start : Nat) : Reader Operand := do
  Reader.require (bound ≤ 1)
  symbol "?"
  match ← Reader.ahead with
  | '?' :: _ => failure
  | '.' :: cs => Reader.require (cs.head?.any Char.isDigit)
  | _ => pure ()
  Reader.gap
  let _ ← R.assignment false
  symbol ":"
  Reader.gap
  let _ ← R.assignment semi
  unsupportedFrom .conditionalExpression start

/-- **An expression** whose operators bind at least as strong as a
bound. -/
def expressionRule (R : Readers) (semi : Bool) (bound : Nat) : Reader Operand := do
  let start ← Reader.pos
  let first ← operandRule R semi
  suffixes (fun o => joined R semi bound start o <|> conditional R semi bound start) first

/-- **A pattern with an optional default**, as a parameter or inside
another pattern. Besides names and patterns proper, a place that can be
assigned to may stand here. -/
def patternRule (R : Readers) : Reader Pattern := do
  let start ← Reader.pos
  let target ← match ← Reader.ahead with
    | '.' :: '.' :: '.' :: _ => do
      Reader.literal "..."
      Reader.gap
      let _ ← R.pattern
      pure (Pattern.unsupported .restElement (← spanFrom start))
    | '[' :: _ => do
      arrayPattern R
      pure (Pattern.unsupported .arrayPattern (← spanFrom start))
    | '\x7b' :: _ => do
      objectPattern R
      pure (Pattern.unsupported .objectPattern (← spanFrom start))
    | '(' :: _ => failure
    | _ => do
      let o ← suffixed R false
      let span ← spanFrom start
      match o.form, o.expr with
      | .name, .identifier name _ =>
        pure (if name = "undefined" then .unsupported (.unrecognized "undefined") span
          else .identifier name span)
      | .member, _ => pure (.unsupported (.unrecognized "member_expression") span)
      | .subscript, _ => pure (.unsupported (.unrecognized "subscript_expression") span)
      | _, _ => failure
  let default ← Reader.option (initializer R false)
  if default.isSome then return .unsupported .assignmentPattern (← spanFrom start)
  return target

end ScriptToShell.Grammar
