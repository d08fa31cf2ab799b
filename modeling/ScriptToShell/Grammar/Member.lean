import ScriptToShell.Grammar.Body
import ScriptToShell.Grammar.Destructuring

/-!
# Functions, objects and classes

What stands in the braces of an object or a class: properties, methods,
fields. A script knows none of these, so the readers here only find out
where they end. The one thing kept is the parts of a function that is
declared by name.
-/

namespace ScriptToShell.Grammar

open Scan

/-- The parameters and the body of a function. -/
def functionRest (R : Readers) (bare : Bool) : Reader (List Pattern × List Stmt) := do
  Reader.gap
  let params ← parameters R
  Reader.gap
  let body ← block R bare
  return (params, body)

/-- A reader behind an optional keyword or symbol. -/
def withModifier (modifier : Reader Unit) (reader : Reader Unit) : Reader Unit :=
  (do
    modifier
    Reader.gap
    reader) <|> reader

/-- **A method** with its modifiers. -/
def method (R : Readers) : Reader Unit :=
  withModifier (Reader.keyword "static") <|
  withModifier (Reader.keyword "async") <|
  withModifier (Reader.keyword "get" <|> Reader.keyword "set" <|> Reader.literal "*") do
    propertyName R
    let _ ← functionRest R true

/-- A property of an object. -/
def property (R : Readers) : Reader Unit :=
  (do
    Reader.literal "..."
    Reader.gap
    let _ ← R.assignment false) <|>
  method R <|>
  (do
    propertyName R
    symbol ":"
    Reader.gap
    let _ ← R.assignment false) <|>
  (do let _ ← Reader.name)

/-- **An object.** -/
def object (R : Readers) : Reader Unit := do
  Reader.literal "\x7b"
  commaSeparated (property R)
  symbol "\x7d"

/-- A decorator before a class or one of its members. -/
def decorator (R : Readers) : Reader Unit := do
  Reader.literal "@"
  Reader.gap
  let _ ← Reader.name
  let _ ← Reader.many do
    symbol "."
    Reader.gap
    let _ ← Reader.name
  let _ ← Reader.option do
    Reader.trivia
    arguments R

/-- Any number of decorators. -/
def decorators (R : Readers) : Reader Unit := do
  let _ ← Reader.many do
    decorator R
    Reader.gap

/-- A field of a class. -/
def field (R : Readers) : Reader Unit :=
  withModifier (Reader.keyword "static") do
    propertyName R
    let bare ← Reader.atSupplied true
    let init ← if bare then pure none else Reader.option (initializer R true)
    Reader.semicolon init.isNone

/-- A member of a class. -/
def classMember (R : Readers) : Reader Unit :=
  Reader.literal ";" <|>
  (do
    Reader.keyword "static"
    Reader.gap
    let _ ← block R true) <|>
  (do
    decorators R
    method R
    let _ ← Reader.option (nextSymbol ";")) <|>
  (do
    decorators R
    field R)

/-- **The body of a class.** -/
def classBody (R : Readers) : Reader Unit := do
  Reader.literal "\x7b"
  let _ ← Reader.many do
    Reader.gap
    classMember R
  nextSymbol "\x7d"

/-- What follows the keyword of a class: a name, the class it extends and
its body. -/
def classRest (R : Readers) : Reader Unit := do
  Reader.gap
  let _ ← Reader.option do
    Reader.require (headName? (← Reader.ahead) ≠ some "extends")
    Reader.name
  let _ ← Reader.option do
    nextKeyword "extends"
    Reader.gap
    R.assignment false
  Reader.gap
  classBody R

end ScriptToShell.Grammar
