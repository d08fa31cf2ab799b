import ScriptToShell.Grammar.Markup
import ScriptToShell.Grammar.Member
import ScriptToShell.Text.Blank

/-!
# Primary expressions

What an operand starts with: a name, a literal, something in brackets, a
function or a class. Most of these have no counterpart in a shell; their
readers find out where they end and keep the kind.
-/

namespace ScriptToShell.Grammar

open Scan

/-- Names that an expression takes for something else than a variable. -/
def isReserved (word : String) : Bool :=
  ["this", "super", "true", "false", "null", "undefined", "function", "class", "new", "typeof",
   "void", "delete", "await", "yield", "import"].contains word

/-- Words that where a statement may start can be nothing but its
keyword. -/
def startsStatementOnly (word : String) : Bool :=
  ["var", "const", "if", "switch", "for", "while", "do", "try", "with", "break", "continue",
   "return", "throw", "debugger"].contains word

/-- An operand whose span starts at an offset. -/
def operandFrom (start : Nat) (form : Form) (make : Span → Expr) : Reader Operand :=
  return ⟨make (← spanFrom start), form⟩

/-! ## Functions and arrows -/

/-- What follows the keyword of a function expression. -/
def functionExpression (R : Readers) : Reader Unit := do
  Reader.gap
  let _ ← Reader.option (Reader.literal "*")
  Reader.gap
  let _ ← Reader.option Reader.name
  let _ ← functionRest R false

/-- A name alone, or one with a default that nothing follows. Where a block
may stand it is a statement and no property. -/
def nameAlone (R : Readers) : Reader Unit := do
  let _ ← Reader.name
  symbol "," <|> do
    let _ ← Reader.option (initializer R true)
    symbol "\x7d"

/-- Whether a text that starts with a brace may be read as an object where
a block may stand, too: a keyword of a statement or expression behind the
brace is not the name of a property there. -/
def looksLikeObject (R : Readers) : Reader Bool := Reader.sees do
  Reader.literal "\x7b"
  Reader.gap
  Reader.refuse (nameAlone R)
  match headName? (← Reader.ahead) with
  | some word =>
    Reader.require (!isReserved word && !startsStatementOnly word)
  | none => pure ()

/-- The arrow of a function and its body: a block or an expression. -/
def arrowRest (R : Readers) (semi : Bool) : Reader Unit := do
  symbol "=>"
  Reader.gap
  (do let _ ← block R false) <|> (do
    if (← Reader.ahead).head? = some '\x7b' then
      Reader.require (← looksLikeObject R)
    let _ ← R.assignment semi)

/-- An arrow function with parameters in parentheses. -/
def arrow (R : Readers) (semi : Bool) : Reader Unit := do
  let _ ← parameters R
  arrowRest R semi

/-! ## Primary expressions -/

/-- An expression in parentheses, or an arrow function: what is no
expression, or has an arrow behind it, is read as parameters. -/
def parenthesizedOrArrow (R : Readers) (semi : Bool) : Reader Operand := do
  let start ← Reader.here
  let inner ← Reader.option (parenthesized R)
  let isArrow ← Reader.sees (symbol "=>")
  match inner, isArrow with
  | some inner, false => return ⟨inner, .parenthesized⟩
  | _, _ =>
    set start
    arrow R semi
    unsupportedFrom .arrowFunctionExpression start.pos

/-- Something in brackets that is a literal, unless an assignment follows:
then it is a pattern. -/
def literalOrPattern (R : Readers) (semi : Bool) (kind : NodeKind) (literal pattern : Reader Unit) :
    Reader Operand := do
  let start ← Reader.pos
  (do
    literal
    Reader.refuse equalsSign
    unsupportedFrom kind start) <|>
  (do
    pattern
    equalsSign
    Reader.gap
    let _ ← R.assignment semi
    unsupportedFrom .assignmentExpression start)

/-- What follows `async`: a function, an arrow function, or nothing, for
the word is a name as well. -/
def asyncRest (R : Readers) (semi : Bool) (start : Nat) : Reader Operand := do
  let span ← spanFrom start
  let plain : Reader Operand := return ⟨.identifier "async" span, .name⟩
  if semi && (← Reader.atSupplied false) then plain
  else
    (do
      Reader.trivia
      Reader.keyword "function"
      functionExpression R
      unsupportedFrom .functionExpression start) <|>
    (do
      Reader.trivia
      let word ← Reader.name
      Reader.require (!isReserved word)
      arrowRest R semi
      unsupportedFrom .arrowFunctionExpression start) <|>
    (do
      Reader.trivia
      arrow R semi
      unsupportedFrom .arrowFunctionExpression start) <|>
    (do
      arrowRest R semi
      unsupportedFrom .arrowFunctionExpression start) <|>
    plain

/-- The two halves of a meta property, from its text. -/
def metaParts (text : List Char) : String × String :=
  let owner := text.takeWhile (· ≠ '.')
  let own := text.drop (owner.length + 1)
  (String.ofList (Text.trim owner), String.ofList (Text.trim own))

/-- A meta property from its first character to the place of the
reader. -/
def metaProperty (start : Cursor) : Reader Operand := do
  let (owner, own) := metaParts (start.textUpTo (← Reader.here))
  operandFrom start.pos .other (.metaProperty owner own)

/-- What follows `import` in an expression: a call, the module's own
property, or another property. -/
def importRest (R : Readers) (start : Cursor) : Reader Operand :=
  (do
    Reader.gap
    let _ ← arguments R
    unsupportedFrom .importExpression start.pos) <|>
  (do
    let span ← spanFrom start.pos
    nextSymbol "."
    Reader.gap
    let word ← Reader.name
    if word = "meta" then metaProperty start
    else
      operandFrom start.pos .member
        (.member (.unsupported (.unrecognized "import") span) word))

/-- A private name before `in`. -/
def privateIn (R : Readers) (semi : Bool) : Reader Operand := do
  let start ← Reader.pos
  let _ ← Reader.privateName
  let left : Expr := .unsupported .privateIdentifier (← spanFrom start)
  Reader.trivia
  Reader.keyword "in"
  Reader.gap
  let right ← R.expression semi 9
  operandFrom start .other (.binary .isIn left right.expr)

/-- A primary expression that starts with a name, except `new`. -/
def wordOperand (R : Readers) (semi : Bool) : Reader Operand := do
  let start ← Reader.here
  let word ← Reader.name
  let offset := start.pos
  match word with
  | "true" => operandFrom offset .other (.literal (.boolean true))
  | "false" => operandFrom offset .other (.literal (.boolean false))
  | "null" => operandFrom offset .other (.literal .null)
  | "this" => unsupportedFrom .thisExpression offset
  | "super" => unsupportedFrom .super offset
  | "undefined" => operandFrom offset .name (.identifier word)
  | "function" =>
    functionExpression R
    unsupportedFrom .functionExpression offset
  | "class" =>
    classRest R
    unsupportedFrom .classExpression offset
  | "import" => importRest R start
  | "async" => asyncRest R semi offset
  | _ =>
    Reader.require (!isReserved word)
    let name ← operandFrom offset .name (.identifier word)
    (do
      arrowRest R semi
      unsupportedFrom .arrowFunctionExpression offset) <|> pure name

/-- **A primary expression**, except `new`. -/
def primary (R : Readers) (semi : Bool) : Reader Operand := do
  let start ← Reader.pos
  match ← Reader.ahead with
  | '(' :: _ => parenthesizedOrArrow R semi
  | '[' :: _ =>
    literalOrPattern R semi .arrayExpression (do let _ ← items R "[" "]") (arrayPattern R)
  | '\x7b' :: _ => literalOrPattern R semi .objectExpression (object R) (objectPattern R)
  | '"' :: _ | '\'' :: _ =>
    let value ← Reader.string
    operandFrom start .other (.literal (.string value))
  | '\x60' :: _ =>
    template R
    unsupportedFrom .templateLiteral start
  | '/' :: _ =>
    let _ ← Reader.token regex?
    unsupportedFrom (.unrecognized "regex") start
  | '<' :: _ =>
    R.element
    unsupportedFrom .jsxElement start
  | '#' :: _ => privateIn R semi
  | '@' :: _ =>
    decorators R
    Reader.keyword "class"
    classRest R
    unsupportedFrom .classExpression start
  | c :: _ =>
    if c.isDigit || c = '.' then
      let text ← Reader.token number?
      operandFrom start .other (.literal (.number (String.ofList text)))
    else wordOperand R semi
  | [] => failure

end ScriptToShell.Grammar
