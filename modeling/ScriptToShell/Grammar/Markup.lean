import ScriptToShell.Grammar.Sequence

/-!
# Markup and templates

Elements of markup may stand where an operand is expected. An element has
a name, attributes and children, or is closed at once; the names of its
two tags are not compared. A template is a text between backquotes with
expressions in it.
-/

namespace ScriptToShell.Grammar

open Scan

/-- A name in markup, which may hold hyphens. -/
def markupName? : Lexeme := fun cs =>
  let isStart (c : Char) : Bool := c.isAlpha || c = '_' || c = '$'
  let isPart (c : Char) : Bool := isStart c || c.isDigit || c = '-'
  let hyphenated := match cs with
    | c :: rest =>
      let part := rest.takeWhile isPart
      if isStart c && part.contains '-' then some (part.length + 1) else none
    | [] => none
  hyphenated <|> name? cs

/-- The name of an element: a name, names with points between them, or two
names with a colon. -/
def elementName : Reader Unit := do
  let _ ← Reader.token markupName?
  (do
    nextSymbol ":"
    Reader.gap
    let _ ← Reader.token markupName?) <|>
  (do
    let _ ← Reader.many do
      nextSymbol "."
      Reader.gap
      Reader.name)

/-- A reference to a character: a name or a number between `&` and `;`. -/
def reference? : Lexeme
  | '&' :: cs =>
    let (skipped, digits, most) := match cs with
      | '#' :: 'x' :: ds | '#' :: 'X' :: ds => (3, ds.takeWhile isHexDigit, 6)
      | '#' :: ds => (2, ds.takeWhile Char.isDigit, 5)
      | ds => (1, ds.takeWhile Char.isAlpha, 30)
    let count := digits.length
    if count ≠ 0 ∧ count ≤ most ∧ (cs.drop (skipped - 1 + count)).head? = some ';' then
      some (skipped + count + 1)
    else none
  | _ => none

/-- The inside of an attribute value up to its quote. -/
def attributeChars (quote : Char) : Nat → List Char → Option Nat
  | 0, _ => none
  | _ + 1, [] => none
  | limit + 1, c :: cs =>
    if c = quote then some 1
    else if c = '&' ∧ cs.head?.any (fun d => d = '#' || d.isAlpha) then do
      let count ← reference? (c :: cs)
      let more ← attributeChars quote limit ((c :: cs).drop count)
      return count + more
    else (attributeChars quote limit cs).map (· + 1)

/-- A quoted attribute value. -/
def attributeString? : Lexeme
  | c :: cs =>
    if c = '"' ∨ c = '\'' then (attributeChars c (cs.length + 1) cs).map (· + 1) else none
  | [] => none

/-- An expression in braces, which may be missing. -/
def embedded (R : Readers) : Reader Unit := do
  Reader.literal "\x7b"
  Reader.gap
  let _ ← Reader.option do
    let _ ← Reader.option do
      Reader.literal "..."
      Reader.gap
    expressions R false
  symbol "\x7d"

/-- An attribute of an element. -/
def attributeRule (R : Readers) : Reader Unit :=
  embedded R <|> do
    let _ ← Reader.token markupName?
    let _ ← Reader.option do
      nextSymbol ":"
      Reader.gap
      Reader.token markupName?
    let _ ← Reader.option do
      nextSymbol "="
      Reader.gap
      embedded R <|> R.element <|> (do let _ ← Reader.token attributeString?)

/-- A run of plain text between the children of an element. -/
def markupText? : Lexeme := fun cs =>
  let run := cs.takeWhile fun c => !"<>&\x7b\x7d".toList.contains c
  if run.isEmpty then none else some run.length

/-- A child of an element. -/
def child (R : Readers) : Reader Unit :=
  (do let _ ← Reader.token markupText?) <|>
  (do let _ ← Reader.token reference?) <|>
  embedded R <|>
  (do
    Reader.require (!("</".toList.isPrefixOf (← Reader.ahead)))
    R.element)

/-- The children and the closing tag of an element. -/
def children (R : Readers) : Reader Unit := do
  let _ ← Reader.many (child R)
  Reader.literal "</"
  Reader.gap
  let _ ← Reader.option elementName
  nextSymbol ">"

/-- **An element of markup.** -/
def elementRule (R : Readers) : Reader Unit := do
  Reader.literal "<"
  (do
    nextSymbol ">"
    children R) <|>
  (do
    Reader.gap
    elementName
    let _ ← Reader.many do
      Reader.gap
      attributeRule R
    nextSymbol "/>" <|> (do
      nextSymbol ">"
      children R))

/-- A substitution and the characters behind it. -/
def templatePart (R : Readers) : Reader Unit := do
  Reader.literal "$\x7b"
  Reader.gap
  let _ ← expressions R false
  symbol "\x7d"
  let _ ← Reader.token fun cs => templateChars (cs.length + 1) cs

/-- **A template.** -/
def template (R : Readers) : Reader Unit := do
  Reader.literal "`"
  let _ ← Reader.token fun cs => templateChars (cs.length + 1) cs
  let _ ← Reader.many (templatePart R)
  Reader.literal "`"

end ScriptToShell.Grammar
