import ScriptToShell.Grammar.Primary

/-!
# Operands

An operand is a primary expression with the suffixes behind it: accesses,
calls, increments. Before it may stand prefix operators, and behind a
thing that can be assigned to an assignment, which takes everything to its
right.
-/

namespace ScriptToShell.Grammar

open Scan

/-! ## Suffixes -/

/-- An access to a property behind its point. -/
def propertyAccess (start : Nat) (object : Expr) : Reader Operand := do
  Reader.gap
  (do
    let _ ← Reader.privateName
    operandFrom start .member (.unsupported .privateIdentifier)) <|>
  (do
    let name ← Reader.name
    operandFrom start .member (.member object name))

/-- An access to an element in brackets. -/
def subscript (R : Readers) (start : Nat) : Reader Operand := do
  Reader.literal "["
  Reader.gap
  let _ ← expressions R false
  symbol "]"
  operandFrom start .subscript (.unsupported .memberExpression)

/-- The suffixes behind `?.`. -/
def optionalSuffix (R : Readers) (start : Nat) (o : Operand) : Reader Operand := do
  Reader.gap
  (do
    let _ ← arguments R
    unsupportedFrom .chainExpression start) <|>
  subscript R start <|>
  (do
    let _ ← propertyAccess start o.expr
    operandFrom start .member (.unsupported .chainExpression))

/-- A suffix that may stand between `new` and its arguments. -/
def accessSuffix (R : Readers) (start : Nat) (o : Operand) : Reader Operand := do
  Reader.trivia
  match ← Reader.ahead with
  | '.' :: _ =>
    Reader.literal "."
    propertyAccess start o.expr
  | '[' :: _ => subscript R start
  | '?' :: '.' :: cs =>
    Reader.require (!cs.head?.any Char.isDigit)
    Reader.literal "?."
    optionalSuffix R start o
  | '\x60' :: _ =>
    template R
    unsupportedFrom .taggedTemplateExpression start
  | _ => failure

/-- Any other suffix. Before an increment on a new line a semicolon is
supplied where one may be. -/
def callSuffix (R : Readers) (semi : Bool) (start : Nat) (o : Operand) : Reader Operand := do
  let supplied ← if semi then Reader.atSupplied false else pure false
  Reader.trivia
  match ← Reader.ahead with
  | '(' :: _ =>
    let args ← arguments R
    operandFrom start .other (.call o.expr args)
  | '+' :: '+' :: _ | '-' :: '-' :: _ =>
    Reader.require (!supplied)
    let _ ← Reader.take 2
    unsupportedFrom .updateExpression start
  | _ => failure

/-- An operand with the suffixes a reader takes, at most `limit` of
them. -/
def suffixesUpTo (suffix : Operand → Reader Operand) : Nat → Operand → Reader Operand
  | 0, o => pure o
  | limit + 1, o =>
    (do
      let next ← suffix o
      suffixesUpTo suffix limit next) <|> pure o

/-- An operand with all the suffixes a reader takes. -/
def suffixes (suffix : Operand → Reader Operand) (o : Operand) : Reader Operand := do
  suffixesUpTo suffix (← Reader.ahead).length o

/-- **An expression with `new`.** Each `new` takes the next arguments
behind the constructor, from the inside out. -/
def newOperand (R : Readers) (semi : Bool) : Reader Operand := do
  let start ← Reader.here
  Reader.keyword "new"
  (do
    nextSymbol "."
    nextKeyword "target"
    metaProperty start) <|>
  (do
    let more ← Reader.many do
      nextKeyword "new"
      Reader.refuse (nextSymbol ".")
    Reader.gap
    let first ← Reader.pos
    let constructor ← if headName? (← Reader.ahead) = some "new" then failure else primary R semi
    let _ ← suffixes (accessSuffix R first) constructor
    let _ ← Reader.option do
      Reader.trivia
      arguments R
    let _ ← more.mapM fun _ => Reader.option do
      Reader.trivia
      arguments R
    unsupportedFrom .newExpression start.pos)

/-- **A primary expression with its suffixes.** -/
def suffixed (R : Readers) (semi : Bool) : Reader Operand := do
  let start ← Reader.pos
  let o ← if headName? (← Reader.ahead) = some "new" then newOperand R semi else primary R semi
  suffixes (fun o => accessSuffix R start o <|> callSuffix R semi start o) o

/-! ## Prefix operators and assignments -/

/-- The symbols of an assignment that computes, longest first. -/
def compoundSymbols : List String :=
  [">>>=", "<<=", ">>=", "**=", "&&=", "||=", "??=", "+=", "-=", "*=", "/=", "%=", "&=", "|=", "^="]

/-- The symbol of a compound assignment. -/
def compoundSign : Reader Unit := do
  Reader.trivia
  let cs ← Reader.ahead
  match compoundSymbols.find? (·.toList.isPrefixOf cs) with
  | some text => Reader.literal text
  | none => failure

/-- An assignment to an operand that may be assigned to, or the operand
alone. -/
def assigned (R : Readers) (semi : Bool) (start : Nat) (o : Operand) : Reader Operand :=
  if o.form = .other then pure o
  else
    (do
      equalsSign <|> compoundSign
      Reader.gap
      let _ ← R.assignment semi
      unsupportedFrom .assignmentExpression start) <|> pure o

/-- Whether an expression is a number that is written at an offset,
without a sign. -/
def plainNumber? (start : Nat) : Expr → Option String
  | .literal (.number text) span =>
    if span.start = start ∧ text.toList.head? ≠ some '-' then some text else none
  | _ => none

/-- A prefix operator and its operand. A minus sign before a number makes
a number, and a negation is kept. -/
def prefixed (R : Readers) (semi : Bool) (operator : Reader Unit) (isNot isMinus : Bool) :
    Reader Operand := do
  let start ← Reader.pos
  operator
  Reader.gap
  let first ← Reader.pos
  let o ← R.operand semi
  if isNot then operandFrom start .other (.not o.expr)
  else match isMinus, plainNumber? first o.expr with
    | true, some text => operandFrom start .other (.literal (.number ("-" ++ text)))
    | _, _ => unsupportedFrom .unaryExpression start

/-- What follows `yield`: an expression, a delegation, or nothing. -/
def yieldRest (R : Readers) (semi : Bool) : Reader Unit := do
  if semi && (← Reader.atSupplied false) then pure ()
  else
    let _ ← Reader.option do
      let _ ← Reader.option (symbol "*")
      Reader.trivia
      R.assignment semi

/-- **An operand** with its prefix operators and suffixes, or an
assignment. -/
def operandRule (R : Readers) (semi : Bool) : Reader Operand := do
  let start ← Reader.pos
  let cs ← Reader.ahead
  match cs with
  | '!' :: _ => prefixed R semi (Reader.literal "!") true false
  | '~' :: _ => prefixed R semi (Reader.literal "~") false false
  | '+' :: '+' :: _ | '-' :: '-' :: _ =>
    let _ ← Reader.take 2
    Reader.gap
    let _ ← R.operand semi
    unsupportedFrom .updateExpression start
  | '+' :: _ => prefixed R semi (Reader.literal "+") false false
  | '-' :: _ => prefixed R semi (Reader.literal "-") false true
  | _ =>
    match headName? cs with
    | some "typeof" => prefixed R semi (Reader.keyword "typeof") false false
    | some "void" => prefixed R semi (Reader.keyword "void") false false
    | some "delete" => prefixed R semi (Reader.keyword "delete") false false
    | some "await" =>
      Reader.keyword "await"
      Reader.gap
      let _ ← R.operand semi
      unsupportedFrom .awaitExpression start
    | some "yield" =>
      Reader.keyword "yield"
      yieldRest R semi
      unsupportedFrom .yieldExpression start
    | _ =>
      let o ← suffixed R semi
      assigned R semi start o

end ScriptToShell.Grammar
