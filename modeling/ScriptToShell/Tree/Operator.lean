/-!
# Operators

The binary operators of the source language that a program may hold,
with the token each is written as. Eight of them compare; the others
compute or have no counterpart in a shell. The logical operators are
kept apart, for they decide which operands are evaluated at all.
-/

namespace ScriptToShell

/-- **A binary operator** other than `&&`, `||` and `??`. -/
inductive BinaryOp where
  | equal | strictEqual | notEqual | strictNotEqual
  | less | lessEqual | greater | greaterEqual
  | add | sub | mul | div | mod | exp
  | shiftLeft | shiftRight | shiftRightUnsigned
  | bitAnd | bitOr | bitXor
  | isIn | instanceOf
deriving DecidableEq, Repr, Inhabited

namespace BinaryOp

/-- All binary operators. -/
def all : List BinaryOp :=
  [.equal, .strictEqual, .notEqual, .strictNotEqual, .less, .lessEqual, .greater, .greaterEqual,
   .add, .sub, .mul, .div, .mod, .exp, .shiftLeft, .shiftRight, .shiftRightUnsigned,
   .bitAnd, .bitOr, .bitXor, .isIn, .instanceOf]

/-- The token of an operator. -/
def token : BinaryOp → String
  | .equal => "=="
  | .strictEqual => "==="
  | .notEqual => "!="
  | .strictNotEqual => "!=="
  | .less => "<"
  | .lessEqual => "<="
  | .greater => ">"
  | .greaterEqual => ">="
  | .add => "+"
  | .sub => "-"
  | .mul => "*"
  | .div => "/"
  | .mod => "%"
  | .exp => "**"
  | .shiftLeft => "<<"
  | .shiftRight => ">>"
  | .shiftRightUnsigned => ">>>"
  | .bitAnd => "&"
  | .bitOr => "|"
  | .bitXor => "^"
  | .isIn => "in"
  | .instanceOf => "instanceof"

/-- The operator a token stands for. -/
def ofToken? (text : String) : Option BinaryOp :=
  all.find? (·.token = text)

/-- Whether an operator compares: equality and order. -/
def isComparison : BinaryOp → Bool
  | .equal | .strictEqual | .notEqual | .strictNotEqual
  | .less | .lessEqual | .greater | .greaterEqual => true
  | _ => false

theorem mem_all (op : BinaryOp) : op ∈ all := by
  cases op <;> simp [all]

/-- Reading an operator's token gives the operator back. -/
theorem ofToken?_token (op : BinaryOp) : ofToken? op.token = some op := by
  cases op <;> decide

end BinaryOp

/-- **A logical operator**: the right operand is evaluated only if the
left one leaves the result open. -/
inductive LogicalOp where
  | and | or
deriving DecidableEq, Repr, Inhabited

namespace LogicalOp

/-- The token of a logical operator, the same in both languages. -/
def token : LogicalOp → String
  | .and => "&&"
  | .or => "||"

end LogicalOp

end ScriptToShell
