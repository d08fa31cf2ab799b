import ScriptToShell.Grammar.Sequence

/-!
# Patterns

A pattern takes a value apart: by position between brackets, by key
between braces. Patterns occur in declarations, as parameters and on the
left of an assignment; a shell has none of them, so only their extent is
kept.
-/

namespace ScriptToShell.Grammar

open Scan

/-- **The name of a property**: a name, a string, a number or an expression
in brackets. -/
def propertyName (R : Readers) : Reader Unit :=
  (do let _ ← Reader.name) <|>
  (do let _ ← Reader.privateName) <|>
  (do let _ ← Reader.string) <|>
  (do let _ ← Reader.token number?) <|>
  (do
    Reader.literal "["
    Reader.gap
    let _ ← R.assignment false
    symbol "]")

/-- A default behind a name in a pattern. -/
def initializer (R : Readers) (semi : Bool) : Reader Expr := do
  equalsSign
  Reader.gap
  return (← R.assignment semi).expr

/-- Optional parts with commas between them. -/
def commaSeparated (part : Reader Unit) : Reader Unit := do
  let slot : Reader Unit := do
    Reader.gap
    let _ ← Reader.option part
  slot
  let _ ← Reader.many do
    symbol ","
    slot

/-- **A pattern by position.** -/
def arrayPattern (R : Readers) : Reader Unit := do
  Reader.literal "["
  commaSeparated do let _ ← R.pattern
  symbol "]"

/-- A part of a pattern by key. -/
def objectPatternPart (R : Readers) : Reader Unit :=
  (do
    Reader.require ("...".toList.isPrefixOf (← Reader.ahead))
    let _ ← R.pattern) <|>
  (do
    propertyName R
    symbol ":"
    Reader.gap
    let _ ← R.pattern) <|>
  (do
    let _ ← Reader.name
    let _ ← Reader.option (initializer R false))

/-- **A pattern by key.** -/
def objectPattern (R : Readers) : Reader Unit := do
  Reader.literal "\x7b"
  commaSeparated (objectPatternPart R)
  symbol "\x7d"

/-- **What a declaration binds**: any name, or a pattern. -/
def bindingTarget (R : Readers) : Reader Pattern := do
  let start ← Reader.pos
  (do
    let name ← Reader.name
    return .identifier name (← spanFrom start)) <|>
  (do
    arrayPattern R
    return .unsupported .arrayPattern (← spanFrom start)) <|>
  (do
    objectPattern R
    return .unsupported .objectPattern (← spanFrom start))

/-- A mark as a parameter. -/
def markPattern (span : Span) : Pattern := .unsupported markKind span

/-- **The parameters of a function.** A mark among them is a parameter of
its own. -/
def parameters (R : Readers) : Reader (List Pattern) := do
  Reader.literal "("
  let marks ← Reader.marks
  let first ← Reader.option R.pattern
  match first with
  | none =>
    Reader.literal ")"
    return marks.map markPattern
  | some first =>
    let more ← Reader.many do
      symbol ","
      let marks ← Reader.marks
      let next ← R.pattern
      return marks.map markPattern ++ [next]
    let last ← Reader.option do
      symbol ","
      Reader.marks
    symbol ")"
    return marks.map markPattern ++ first :: more.flatten ++ (last.getD []).map markPattern

end ScriptToShell.Grammar
