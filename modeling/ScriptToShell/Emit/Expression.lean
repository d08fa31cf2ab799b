import ScriptToShell.Emit.Fault
import ScriptToShell.Shell.Quote
import ScriptToShell.Shell.Target
import ScriptToShell.Tree.Numeral

/-!
# Expressions as shell text

An expression is written in three ways. Its **text** is the bare form: a
name, the text of a literal, the command line of a call. Its **value** is
that text as one shell word, the form in which it stands inside a
command. Its **condition** is a command whose exit status is the truth of
the expression, for a test.

A shell has no booleans, so the value of a comparison is the word `true`
or `false`, printed by a command that runs the test; and a value used as
a test is compared with each of the words that count as false.

In a shell, `&&` and `||` bind equally strong and `!` takes the next
command only. A nested test is therefore braced wherever it would
otherwise be read differently (`Expr.needsBraces`).
-/

namespace ScriptToShell

open Text (joinWith)

namespace Emit

/-! ## Operators -/

/-- **The operator of a test command** for a comparison. -/
def testOperator (op : BinaryOp) (span : Span) : Except Fault String :=
  match op with
  | .equal | .strictEqual => .ok "="
  | .notEqual | .strictNotEqual => .ok "!="
  | .less => .ok "-lt"
  | .lessEqual => .ok "-le"
  | .greater => .ok "-gt"
  | .greaterEqual => .ok "-ge"
  | _ => .error (.invalidOperator op "test" span)

/-- **The operator of an arithmetic expansion.** Powers exist in one of
the two shells only. -/
def arithmeticOperator (op : BinaryOp) (target : Target) (span : Span) : Except Fault String :=
  match op with
  | .add | .sub | .mul | .div | .mod | .shiftLeft | .shiftRight | .bitAnd | .bitOr | .bitXor =>
    .ok op.token
  | .exp =>
    match target with
    | .bash => .ok "**"
    | .posix => .error (.invalidOperator op "POSIX shell" span)
  | _ => .error (.invalidOperator op "shell" span)

/-! ## Commands and words -/

/-- The directory of the running script. -/
def scriptDir : String := "$(dirname \"$(realpath \"$0\")\")"

/-- The path of the running script. -/
def scriptPath : String := "$(realpath \"$0\")"

/-- A comparison of two words as a test command. -/
def comparison (op : BinaryOp) (span : Span) (left right : Except Fault String) :
    Except Fault String := do
  let o ← testOperator op span
  let l ← left
  let r ← right
  return "[ " ++ l ++ " " ++ o ++ " " ++ r ++ " ]"

/-- An arithmetic expansion of two words. -/
def arithmetic (target : Target) (op : BinaryOp) (span : Span)
    (left right : Except Fault String) : Except Fault String := do
  let o ← arithmeticOperator op target span
  let l ← left
  let r ← right
  return "$(( " ++ l ++ " " ++ o ++ " " ++ r ++ " ))"

/-- The word `true` or `false`, by the outcome of a test. -/
def booleanWord (test : String) : String :=
  "$( if " ++ test ++ "; then printf true; else printf false; fi )"

/-- **The test whether a word counts as true**: it is not empty and none
of the words that falsy values are written as. -/
def truthy (word : String) : String :=
  "[ -n " ++ word ++ " ] && [ " ++ word ++ " != false ] && [ " ++ word ++ " != 0 ] && [ "
    ++ word ++ " != null ]"

/-- A test inside braces. -/
def braced (test : String) : String := "\x7b " ++ test ++ "; \x7d"

/-- A test, in braces if they are needed. -/
def bracedIf (needed : Bool) (test : String) : String := if needed then braced test else test

/-- Whether a shell would interpret a character inside double quotes, or
end the line at it. -/
def isActive (c : Char) : Bool :=
  c = '"' || c = '$' || c = '\x60' || c = '\\' || c = '\n' || c = '\r'

/-- An active character as messages show it. -/
def shownActive (c : Char) : String :=
  if c = '\n' then "'\\n'"
  else if c = '\r' then "'\\r'"
  else if c = '\\' then "'\\\\'"
  else "'" ++ String.singleton c ++ "'"

/-- **The text of a literal**, which is put between double quotes as it
is and so must hold no active character. -/
def literalText (value : Literal) (span : Span) : Except Fault String :=
  match value.text.toList.find? isActive with
  | some c =>
    .error (.notSupportedFor .literal
      ("string containing " ++ shownActive c ++ " cannot be quoted verbatim") span)
  | none => .ok value.text

/-- The text of an access to a property. Two properties of the running
module exist in a shell. -/
def memberText (object : Expr) (property : String) (span : Span) : Except Fault String :=
  match object with
  | .metaProperty owner own _ =>
    if owner = "import" ∧ own = "meta" then
      if property = "dirname" then .ok scriptDir
      else if property = "filename" then .ok scriptPath
      else .error (.notSupportedFor .metaProperty ("import.meta." ++ property) span)
    else .error (.notSupportedFor .memberExpression ("property access `." ++ property ++ "`") span)
  | _ => .error (.notSupportedFor .memberExpression ("property access `." ++ property ++ "`") span)

/-- Where the output of a method of `console` goes. -/
def redirection? (object : Expr) (property : String) : Option String :=
  match object with
  | .identifier name _ =>
    if name = "console" then
      if property = "log" then some ""
      else if property = "error" ∨ property = "warn" then some " >&2"
      else none
    else none
  | _ => none

end Emit

open Emit

namespace Expr

/-- Whether the text of an expression is a word already. -/
def isWord : Expr → Bool
  | .logical .. | .not .. | .member .. => true
  | _ => false

/-- The text of an expression made a word. -/
def embed (e : Expr) (text : String) : String :=
  if e.isWord then Shell.Quoting.arithmeticBlock.apply text else Shell.word e.kind text

/-- The text of an argument made a word; a decimal number stands
unquoted. -/
def embedArgument (e : Expr) (text : Except Fault String) : Except Fault String :=
  match e with
  | .literal (.number n) _ => if Numeral.isBare n then .ok n else text.map e.embed
  | _ => text.map e.embed

/-- Whether the condition of an expression is a chain of tests of one
word. -/
def isTruthyChain : Expr → Bool
  | .binary .. | .logical .. | .not .. | .literal .. | .call .. => false
  | _ => true

/-- Whether the condition of an operand has to be braced. The operator
is that of the surrounding test; there is none below a negation. -/
def needsBraces (e : Expr) (parent : Option LogicalOp) : Bool :=
  match e with
  | .logical op .. => some op ≠ parent
  | _ => e.isTruthyChain && parent ≠ some .and

/-- **The command line of a call**, from the texts of its arguments. A
method of `console` prints each argument on a line of its own. -/
def callText (callee : Expr) (arguments : List Expr) (span : Span)
    (texts : List (Except Fault String)) : Except Fault String :=
  match callee with
  | .identifier name _ => do
    let words ← (arguments.zip texts).mapM fun (e, text) => e.embedArgument text
    return joinWith " " (name :: words)
  | .member object property _ =>
    match redirection? object property with
    | some redirection => do
      let values ← (arguments.zip texts).mapM fun (e, text) => text.map e.embed
      if values.isEmpty then return "echo" ++ redirection
      return joinWith "\n" (values.map fun v => "echo " ++ v ++ redirection)
    | none =>
      .error (.notSupportedFor .callExpression
        "only console.log, console.error and console.warn can be called as methods" span)
  | _ => .error (.notSupportedFor .callExpression ("cannot call a " ++ callee.kind.name) span)

mutual

/-- **The bare text of an expression.** -/
def text (target : Target) : Expr → Except Fault String
  | .identifier name _ => .ok name
  | .literal value span => literalText value span
  | .binary op left right span =>
    if op.isComparison then
      (comparison op span ((left.text target).map left.embed)
        ((right.text target).map right.embed)).map booleanWord
    else
      arithmetic target op span ((left.text target).map left.embed)
        ((right.text target).map right.embed)
  | .logical op left right _ => do
    let l ← left.condition target
    let r ← right.condition target
    return booleanWord (bracedIf (left.needsBraces op) l ++ " " ++ op.token ++ " "
      ++ bracedIf (right.needsBraces op) r)
  | .not argument _ => do
    let a ← argument.condition target
    return booleanWord ("! " ++ bracedIf (argument.needsBraces none) a)
  | .call callee arguments span =>
    callText callee arguments span (texts target arguments)
  | .member object property span => memberText object property span
  | .metaProperty _ _ span => .error (.notSupported .metaProperty span)
  | .unsupported kind span => .error (.notSupported kind span)

/-- **The test of an expression.** -/
def condition (target : Target) : Expr → Except Fault String
  | .binary op left right span =>
    if op.isComparison then
      comparison op span ((left.text target).map left.embed) ((right.text target).map right.embed)
    else
      (arithmetic target op span ((left.text target).map left.embed)
        ((right.text target).map right.embed)).map fun v => "[ " ++ v ++ " -ne 0 ]"
  | .logical op left right _ => do
    let l ← left.condition target
    let r ← right.condition target
    return bracedIf (left.needsBraces op) l ++ " " ++ op.token ++ " "
      ++ bracedIf (right.needsBraces op) r
  | .not argument _ => do
    let a ← argument.condition target
    return "! " ++ bracedIf (argument.needsBraces none) a
  | .literal value _ => .ok (if value.truth then "true" else "false")
  | .call callee arguments span =>
    callText callee arguments span (texts target arguments)
  | .identifier name _ => .ok (truthy (Shell.word .identifier name))
  | .member object property span => (memberText object property span).map truthy
  | .metaProperty _ _ span => .error (.notSupported .metaProperty span)
  | .unsupported kind span => .error (.notSupported kind span)

/-- The texts of a list of expressions. -/
def texts (target : Target) : List Expr → List (Except Fault String)
  | [] => []
  | e :: es => e.text target :: texts target es

end

/-- **The value of an expression**: its text as one shell word. -/
def value (target : Target) (e : Expr) : Except Fault String := (e.text target).map e.embed

end Expr

end ScriptToShell
