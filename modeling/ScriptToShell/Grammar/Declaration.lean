import ScriptToShell.Grammar.Expression

/-!
# Declarations

Statements that are an expression, and statements that bind names:
variables, functions and classes. Any word may be bound, since a word is a
keyword only where the grammar can take it for one.
-/

namespace ScriptToShell.Grammar

open Scan

/-- A statement whose span starts at an offset. -/
def statementFrom (start : Nat) (make : Span → Stmt) : Reader Stmt := return make (← spanFrom start)

/-- A statement of a kind that is not supported. -/
def unsupportedStatement (kind : NodeKind) (start : Nat) : Reader Stmt :=
  statementFrom start (.unsupported kind)

/-! ## Expressions, labels and declarations -/

/-- An expression and the end of the statement. -/
def expressionStatement (R : Readers) : Reader Stmt := do
  let start ← Reader.pos
  let value ← expressions R true
  Reader.semicolon false
  statementFrom start (.expression value)

/-- A label before a statement. -/
def labeled (R : Readers) : Reader Stmt := do
  let start ← Reader.pos
  let word ← Reader.name
  Reader.require (!isReserved word)
  symbol ":"
  Reader.gap
  let _ ← R.statement
  unsupportedStatement .labeledStatement start

/-- One binding of a declaration. Behind a name alone a semicolon may be
supplied before an equals sign is looked for. -/
def declarator (R : Readers) : Reader Declarator := do
  let start ← Reader.pos
  let target ← bindingTarget R
  let ended ← Reader.atSupplied true
  let init ← if ended then pure none else Reader.option (initializer R true)
  return ⟨target, init, ← spanFrom start⟩

/-- The bindings of a declaration with commas between them, at most
`limit` more of them. -/
def declaratorsUpTo (R : Readers) : Nat → Declarator → Reader (List Declarator)
  | 0, d => pure [d]
  | limit + 1, d =>
    (do
      if d.init.isNone then Reader.require (!(← Reader.atSupplied true))
      symbol ","
      Reader.gap
      let next ← declarator R
      let more ← declaratorsUpTo R limit next
      return d :: more) <|> pure [d]

/-- What follows the keyword of a declaration: its bindings and the end of
the statement. -/
def declarationRest (R : Readers) (kind : DeclKind) (start : Nat) : Reader Stmt := do
  let first ← declarator R
  let all ← declaratorsUpTo R (← Reader.ahead).length first
  Reader.semicolon (all.getLast?.any (·.init.isNone))
  statementFrom start (.declaration kind all)

/-- A declaration with `var` or `const`. -/
def declaration (R : Readers) (kind : DeclKind) (word : String) : Reader Stmt := do
  let start ← Reader.pos
  Reader.keyword word
  Reader.gap
  declarationRest R kind start

/-- A declaration with `let`, which may also be a name. -/
def letDeclaration (R : Readers) : Reader Stmt := do
  let start ← Reader.pos
  Reader.keyword "let"
  Reader.require (!(← Reader.atSupplied false))
  Reader.trivia
  match headName? (← Reader.ahead) with
  | some "in" | some "instanceof" => failure
  | _ => declarationRest R .let start

/-! ## Functions and classes -/

/-- Whether a named function follows: its keyword, an optional star and a
name. -/
def seesNamedFunction : Reader Bool := Reader.sees do
  Reader.keyword "function"
  Reader.gap
  let _ ← Reader.option (Reader.literal "*")
  Reader.gap
  Reader.name

/-- A function that is declared by name, from its keyword. -/
def namedFunction (R : Readers) (start : Nat) : Reader Stmt := do
  Reader.keyword "function"
  Reader.gap
  let star ← Reader.option (Reader.literal "*")
  Reader.gap
  let name ← Reader.name
  let (params, body) ← functionRest R false
  if star.isSome then
    unsupportedStatement (.unrecognized "generator_function_declaration") start
  else statementFrom start (.function name params body)

/-- A function that is declared with `async` before its keyword. -/
def asyncFunction (R : Readers) : Reader Stmt := do
  let start ← Reader.pos
  Reader.keyword "async"
  Reader.require (!(← Reader.atSupplied false))
  Reader.trivia
  Reader.require (← seesNamedFunction)
  namedFunction R start

/-- Whether a named class follows. -/
def seesNamedClass : Reader Bool := Reader.sees do
  Reader.keyword "class"
  Reader.gap
  Reader.require (headName? (← Reader.ahead) ≠ some "extends")
  Reader.name

/-- A class that is declared by name. -/
def namedClass (R : Readers) (start : Nat) : Reader Stmt := do
  Reader.keyword "class"
  classRest R
  Reader.optionalSemicolon false
  unsupportedStatement .classDeclaration start

end ScriptToShell.Grammar
