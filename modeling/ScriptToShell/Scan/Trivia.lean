import ScriptToShell.Scan.Character
import ScriptToShell.Scan.Cursor

/-!
# White space and comments

Between two tokens there may be white space and comments. Besides line
and block comments there are **marks**: where no operator could come,
`<!--` and `-->` start a comment that runs to the end of the line. A mark
is no white space to the reader of a list, which shows it as an item of
its own, so `gap` reports the marks it passes over.
-/

namespace ScriptToShell.Scan

/-- The length of the inside of a block comment with its end. -/
def blockEnd? : List Char → Option Nat
  | [] => none
  | '*' :: '/' :: _ => some 2
  | _ :: cs => (blockEnd? cs).map (· + 1)

/-- **A comment**: from `//` to the end of the line, or between `/*` and
the next `*/`. -/
def comment? : Lexeme
  | '/' :: '/' :: cs => some (2 + (cs.takeWhile (!endsLine ·)).length)
  | '/' :: '*' :: cs => (blockEnd? cs).map (· + 2)
  | _ => none

/-- The number of white space characters at the head of a text. -/
def spaces (cs : List Char) : Nat := (cs.takeWhile isSpace).length

/-- **A mark**: from `<!--` or `-->` to the end of the line. -/
def mark? : Lexeme
  | '<' :: '!' :: '-' :: '-' :: cs => some (4 + (cs.takeWhile (!isBreak ·)).length)
  | '-' :: '-' :: '>' :: cs => some (3 + (cs.takeWhile (!isBreak ·)).length)
  | _ => none

namespace Cursor

/-- Passes over white space and up to `limit` comments. -/
def triviaUpTo : Nat → Cursor → Cursor
  | 0, c => c
  | limit + 1, c =>
    let c := c.skip (spaces c.rest)
    match comment? c.rest with
    | some count => triviaUpTo limit (c.skip count)
    | none => c

/-- **The place behind white space and comments.** -/
def trivia (c : Cursor) : Cursor := triviaUpTo (c.rest.length + 1) c

/-- Passes over white space and up to `limit` comments and marks; the
spans of the marks are given in order. A mark is seen only behind white
space of ASCII and line separators. -/
def gapUpTo : Nat → Cursor → List Span × Cursor
  | 0, c => ([], c)
  | limit + 1, c =>
    let near := c.skip (c.rest.takeWhile (fun x => isAsciiSpace x || isSeparator x)).length
    match mark? near.rest with
    | some count =>
      let after := near.skip count
      let (marks, last) := gapUpTo limit after
      (⟨near.pos, after.pos⟩ :: marks, last)
    | none =>
      let c := c.skip (spaces c.rest)
      match comment? c.rest with
      | some count => gapUpTo limit (c.skip count)
      | none => ([], c)

end Cursor

namespace Reader

/-- Passes over white space and comments. -/
def trivia : Reader Unit := modify Cursor.trivia

/-- Passes over white space, comments and marks, and gives the spans of
the marks. -/
def marks : Reader (List Span) := do
  let c ← get
  let (spans, after) := c.gapUpTo (c.rest.length + 1)
  set after
  return spans

/-- Passes over white space, comments and marks. -/
def gap : Reader Unit := do
  let _ ← marks

/-- Fails if a mark comes next. -/
def noMark : Reader Unit := do
  let c ← get
  require (c.gapUpTo (c.rest.length + 1)).1.isEmpty

end Reader

end ScriptToShell.Scan
