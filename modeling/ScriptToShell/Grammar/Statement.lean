import ScriptToShell.Grammar.Control
import ScriptToShell.Grammar.Module

/-!
# Statements

A statement is recognized by its first word or symbol. Words are keywords
only where a statement can start with them; a name before a colon is a
label, and everything else is an expression.

A statement that starts with a brace is a block if it can be read as one.
Where it can be read as an object as well, the block is preferred unless
it would start with a label.
-/

namespace ScriptToShell.Grammar

open Scan

/-- A block as a statement. -/
def blockStatement (R : Readers) : Reader Stmt := do
  let start ← Reader.pos
  let body ← block R false
  statementFrom start (.block body)

/-- Whether a brace is followed by what may be a label. -/
def seesLabel : Reader Bool := Reader.sees do
  Reader.literal "\x7b"
  Reader.gap
  let _ ← Reader.name
  symbol ":"

/-- Whether the next token can only continue an expression. -/
def seesContinuation : Reader Bool := Reader.sees do
  Reader.trivia
  match ← Reader.ahead with
  | '.' :: cs => Reader.require (!cs.head?.any Char.isDigit)
  | '!' :: cs => Reader.require (cs.head? = some '=')
  | c :: cs =>
    match headName? (c :: cs) with
    | some word => Reader.require (word = "in" || word = "instanceof")
    | none => Reader.require (",=*%&|^?>".toList.contains c)
  | [] => failure

/-- A statement that is an object and no block. -/
def objectStatement (R : Readers) : Reader Stmt := do
  Reader.require (← looksLikeObject R)
  expressionStatement R

/-- A statement that starts with a brace. -/
def braceStatement (R : Readers) : Reader Stmt := do
  if (← seesLabel) && (← looksLikeObject R) then objectStatement R <|> blockStatement R
  else
    let start ← Reader.here
    match ← Reader.option (blockStatement R) with
    | none => objectStatement R
    | some statement =>
      if ← seesContinuation then
        (do
          set start
          objectStatement R) <|> pure statement
      else pure statement

/-- A statement that starts with a name. -/
def wordStatement (R : Readers) (word : String) : Reader Stmt := do
  let start ← Reader.pos
  match word with
  | "var" => declaration R .var "var"
  | "const" => declaration R .const "const"
  | "let" => letDeclaration R <|> labeled R <|> expressionStatement R
  | "if" => branch R
  | "switch" => switchStatement R
  | "for" => forStatement R
  | "while" => whileStatement R
  | "do" => doStatement R
  | "try" => tryStatement R
  | "with" => withStatement R
  | "break" => exitStatement
  | "continue" => continueStatement
  | "return" => returnStatement R
  | "throw" => throwStatement R
  | "debugger" => debuggerStatement
  | "function" => if ← seesNamedFunction then namedFunction R start else expressionStatement R
  | "class" => if ← seesNamedClass then namedClass R start else expressionStatement R
  | "async" => asyncFunction R <|> labeled R <|> expressionStatement R
  | "import" =>
    let isExpression ← Reader.sees do
      Reader.keyword "import"
      nextSymbol "(" <|> nextSymbol "."
    if isExpression then expressionStatement R else importStatement R
  | "export" => exportStatement R <|> labeled R <|> expressionStatement R
  | _ => labeled R <|> expressionStatement R

/-- **A statement.** -/
def statementRule (R : Readers) : Reader Stmt := do
  let start ← Reader.pos
  let cs ← Reader.ahead
  match cs with
  | ';' :: _ =>
    Reader.literal ";"
    statementFrom start .empty
  | '\x7b' :: _ => braceStatement R
  | '@' :: _ =>
    (do
      decorators R
      Reader.require (← seesNamedClass)
      namedClass R start) <|> exportStatement R <|> expressionStatement R
  | _ =>
    match headName? cs with
    | some word => wordStatement R word
    | none => expressionStatement R

end ScriptToShell.Grammar
