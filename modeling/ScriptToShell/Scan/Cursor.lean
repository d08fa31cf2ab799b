import ScriptToShell.Source.Span

/-!
# Reading a text

A `Cursor` is a place in a source text: what is left of it, and how many
bytes came before. A `Reader` looks at the text from a place and either
fails or gives a value and the place behind what it has read. A reader
that fails has read nothing, so another may be tried from the same place.

What a token is made of is said by a `Lexeme`: the number of characters
of the token at the head of a text, if one stands there.
-/

namespace ScriptToShell.Scan

/-- **A place in a source text.** -/
structure Cursor where
  /-- The number of bytes before the place. -/
  pos : Nat
  /-- The characters behind the place. -/
  rest : List Char
deriving DecidableEq, Repr, Inhabited

namespace Cursor

/-- The start of a text. -/
def ofText (text : List Char) : Cursor := ⟨0, text⟩

/-- The place some characters further on. -/
def skip (count : Nat) (c : Cursor) : Cursor :=
  ⟨c.pos + byteLength (c.rest.take count), c.rest.drop count⟩

/-- The characters between a place and a later one. -/
def textUpTo (c : Cursor) (later : Cursor) : List Char :=
  c.rest.take (c.rest.length - later.rest.length)

end Cursor

/-- **The length of a token at the head of a text**, if there is one. -/
abbrev Lexeme := List Char → Option Nat

/-- **A reader**: from a place, a value and a later place, or failure. -/
abbrev Reader := StateT Cursor Option

namespace Reader

/-- The place of the reader. -/
def here : Reader Cursor := get

/-- What is left to read. -/
def ahead : Reader (List Char) := return (← get).rest

/-- The number of bytes read so far. -/
def pos : Reader Nat := return (← get).pos

/-- Fails unless a condition holds. -/
def require (condition : Bool) : Reader Unit := if condition then pure () else failure

/-- Reads a number of characters. -/
def take (count : Nat) : Reader (List Char) := do
  let c ← get
  set (c.skip count)
  return c.rest.take count

/-- Reads a token. -/
def token (lexeme : Lexeme) : Reader (List Char) := do
  match lexeme (← ahead) with
  | some count => take count
  | none => failure

/-- Reads a fixed text. -/
def literal (text : String) : Reader Unit := do
  let chars := text.toList
  require (chars.isPrefixOf (← ahead))
  modify (·.skip chars.length)

/-- Reads as `reader` does, or nothing. -/
def option {α : Type} (reader : Reader α) : Reader (Option α) :=
  (some <$> reader) <|> pure none

/-- Reads on behind an opening, or nothing if the opening is not there.
Once the opening is read there is no way back. -/
def behind {α : Type} (opening : Reader Unit) (reader : Reader α) : Reader (Option α) := do
  match ← option opening with
  | some _ => some <$> reader
  | none => pure none

/-- Whether a reader would succeed; nothing is read. -/
def sees {α : Type} (reader : Reader α) : Reader Bool := fun c =>
  some ((reader c).isSome, c)

/-- Fails if a reader would succeed; nothing is read. -/
def refuse {α : Type} (reader : Reader α) : Reader Unit := do
  require (!(← sees reader))

/-- Reads up to `limit` times. -/
def manyUpTo {α : Type} (reader : Reader α) : Nat → Reader (List α)
  | 0 => pure []
  | limit + 1 => (do
      let a ← reader
      let as ← manyUpTo reader limit
      return a :: as) <|> pure []

/-- **Reads as often as possible.** Each round of a reader that consumes
something takes at least one character, so the length of the text bounds
the rounds. -/
def many {α : Type} (reader : Reader α) : Reader (List α) := do
  manyUpTo reader (← ahead).length

end Reader

end ScriptToShell.Scan
