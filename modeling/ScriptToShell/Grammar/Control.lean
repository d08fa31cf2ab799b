import ScriptToShell.Grammar.Declaration

/-!
# Control flow

Branches, loops, jumps and the handling of what is thrown. Scripts know
the branches and, inside a function or a `switch`, the jumps; of the
others only the extent is kept.
-/

namespace ScriptToShell.Grammar

open Scan

/-- A test in parentheses behind a keyword. -/
def testInParentheses (R : Readers) : Reader Expr := do
  Reader.gap
  parenthesized R

/-- A statement behind a keyword or a test. -/
def nested (R : Readers) : Reader Stmt := do
  Reader.gap
  R.statement

/-- The alternate of an `if` behind its keyword. A mark before it is taken
for it. -/
def alternate (R : Readers) : Reader Stmt := do
  let marks ← Reader.marks
  let statement ← R.statement
  match marks with
  | mark :: _ => return .unsupported markKind mark
  | [] => return statement

/-- An `if` with its branches. -/
def branch (R : Readers) : Reader Stmt := do
  let start ← Reader.pos
  Reader.keyword "if"
  let test ← testInParentheses R
  let consequent ← nested R
  let other ← Reader.behind (nextKeyword "else") (alternate R)
  statementFrom start (.branch test consequent other)

/-- The statements of a case: up to the next case or the end. -/
def caseBody (R : Readers) : Reader (List Stmt) := Reader.many do
  Reader.gap
  match headName? (← Reader.ahead) with
  | some "case" | some "default" => failure
  | _ => R.statement

/-- A case of a `switch`. -/
def switchCase (R : Readers) : Reader SwitchCase := do
  let start ← Reader.pos
  (do
    Reader.keyword "case"
    Reader.gap
    let test ← expressions R false
    symbol ":"
    let body ← caseBody R
    return .mk (some test) body (← spanFrom start)) <|>
  (do
    Reader.keyword "default"
    nextSymbol ":"
    let body ← caseBody R
    return .mk none body (← spanFrom start))

/-- A `switch` with its cases. -/
def switchStatement (R : Readers) : Reader Stmt := do
  let start ← Reader.pos
  Reader.keyword "switch"
  let discriminant ← testInParentheses R
  nextSymbol "\x7b"
  let cases ← Reader.many do
    Reader.gap
    switchCase R
  nextSymbol "\x7d"
  statementFrom start (.switch discriminant cases)

/-- What a `for` runs over: a place, or a name or pattern that is declared
for it. -/
def loopTarget (R : Readers) : Reader Unit :=
  (do
    Reader.keyword "var"
    Reader.gap
    let _ ← bindingTarget R
    let _ ← Reader.option (initializer R false)) <|>
  (do
    Reader.keyword "const"
    Reader.gap
    let _ ← bindingTarget R) <|>
  (do
    Reader.keyword "let"
    Reader.gap
    let next := headName? (← Reader.ahead)
    Reader.require (next ≠ some "in" && next ≠ some "of")
    let _ ← bindingTarget R) <|>
  (do
    arrayPattern R <|> objectPattern R) <|>
  (do
    let o ← suffixed R false
    Reader.require (o.form ≠ .other))

/-- The head of a `for` that runs over keys or elements. -/
def loopOver (R : Readers) : Reader NodeKind := do
  nextSymbol "("
  Reader.gap
  loopTarget R
  Reader.trivia
  let word ← Reader.name
  Reader.require (word = "in" || word = "of")
  Reader.gap
  let _ ← expressions R false
  symbol ")"
  return if word = "of" then .forOfStatement else .forInStatement

/-- The head of a `for` with a start, a test and a step. -/
def loopCount (R : Readers) : Reader NodeKind := do
  nextSymbol "("
  Reader.gap
  (do let _ ← declaration R .var "var") <|>
    (do let _ ← declaration R .const "const") <|>
    (do let _ ← letDeclaration R) <|>
    Reader.literal ";" <|>
    (do
      let _ ← expressions R false
      symbol ";")
  Reader.gap
  Reader.literal ";" <|> (do
    let _ ← expressions R false
    symbol ";")
  Reader.gap
  let _ ← Reader.option (expressions R false)
  symbol ")"
  return .forStatement

/-- A loop with `for`. -/
def forStatement (R : Readers) : Reader Stmt := do
  let start ← Reader.pos
  Reader.keyword "for"
  let kind ←
    (do
      let _ ← Reader.option (nextKeyword "await")
      loopOver R) <|> loopCount R
  let _ ← nested R
  unsupportedStatement kind start

/-- A loop with `while`. -/
def whileStatement (R : Readers) : Reader Stmt := do
  let start ← Reader.pos
  Reader.keyword "while"
  let _ ← testInParentheses R
  let _ ← nested R
  unsupportedStatement .whileStatement start

/-- A loop with its test at the end. -/
def doStatement (R : Readers) : Reader Stmt := do
  let start ← Reader.pos
  Reader.keyword "do"
  let _ ← nested R
  nextKeyword "while"
  let _ ← testInParentheses R
  Reader.semicolon true <|> Reader.noMark
  unsupportedStatement .doWhileStatement start

/-- Statements with a handler for what they throw, and statements to run
in any case. -/
def tryStatement (R : Readers) : Reader Stmt := do
  let start ← Reader.pos
  Reader.keyword "try"
  Reader.gap
  let _ ← block R true
  let _ ← Reader.behind (nextKeyword "catch") do
    let _ ← Reader.option do
      nextSymbol "("
      Reader.gap
      let _ ← bindingTarget R
      nextSymbol ")"
    Reader.gap
    block R true
  let _ ← Reader.behind (nextKeyword "finally") do
    Reader.gap
    block R true
  unsupportedStatement .tryStatement start

/-- Statements in the scope of an object. -/
def withStatement (R : Readers) : Reader Stmt := do
  let start ← Reader.pos
  Reader.keyword "with"
  let _ ← testInParentheses R
  let _ ← nested R
  unsupportedStatement .withStatement start

/-- A `break` or `continue`, and whether it has a label. -/
def jump (word : String) : Reader Bool := do
  Reader.keyword word
  let label ← if ← Reader.atSupplied true then pure none
    else Reader.option do
      Reader.trivia
      Reader.name
  Reader.semicolon true
  return label.isSome

/-- A `break`; with a label it is not supported. -/
def exitStatement : Reader Stmt := do
  let start ← Reader.pos
  if ← jump "break" then unsupportedStatement .breakStatement start
  else statementFrom start .exit

/-- A `continue`. -/
def continueStatement : Reader Stmt := do
  let start ← Reader.pos
  let _ ← jump "continue"
  unsupportedStatement .continueStatement start

/-- A `return` with its value. -/
def returnStatement (R : Readers) : Reader Stmt := do
  let start ← Reader.pos
  Reader.keyword "return"
  let value ← if ← Reader.atSupplied true then pure none
    else Reader.option do
      Reader.trivia
      expressions R true
  Reader.semicolon value.isNone
  statementFrom start (.ret value)

/-- A `throw` with its value. -/
def throwStatement (R : Readers) : Reader Stmt := do
  let start ← Reader.pos
  Reader.keyword "throw"
  Reader.gap
  let _ ← expressions R true
  Reader.semicolon false
  unsupportedStatement .throwStatement start

/-- A `debugger`. -/
def debuggerStatement : Reader Stmt := do
  let start ← Reader.pos
  Reader.keyword "debugger"
  Reader.semicolon true
  unsupportedStatement .debuggerStatement start

end ScriptToShell.Grammar
