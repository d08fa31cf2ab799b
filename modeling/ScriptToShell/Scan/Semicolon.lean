import ScriptToShell.Scan.Trivia

/-!
# The end of a statement

A statement ends at a semicolon, or where one is supplied: before a
closing brace, at the end of the text, and before a line break unless the
next line continues the statement. A supplied semicolon takes no room; it
stands right behind what was read last.

The decision looks at the text behind the last token. Comments are passed
over, but a comment that ends the line, or holds a line break, decides at
once in a **bare** place, where no operator could follow (behind `return`,
`break` or a name that is declared without a value). If no semicolon is
supplied before a comment, the comment becomes part of the statement and
the decision is taken again behind it.
-/

namespace ScriptToShell.Scan

/-- What stands behind white space and comments. -/
inductive Behind where
  /-- A slash that starts no comment. -/
  | slash
  /-- A block comment without a line break was passed last. -/
  | sameLine (rest : List Char)
  /-- Anything else. -/
  | anywhere (rest : List Char)

/-- Passes over white space and comments. Unless `through` is set, the
first block comment that is not followed by a slash ends the search; the
flag says whether one of the block comments held a line break. -/
def passBlanks (through : Bool) : Nat → Bool → List Char → Behind
  | 0, _, cs => .anywhere cs
  | limit + 1, broken, cs =>
    match cs.dropWhile isAsciiSpace with
    | '/' :: '/' :: rest => passBlanks through limit broken (rest.dropWhile (!isBreak ·))
    | '/' :: '*' :: rest =>
      match blockEnd? rest with
      | none => .anywhere []
      | some count =>
        let broken := broken || (rest.take count).any isBreak
        let after := rest.drop count
        if !through && after.head? ≠ some '/' then
          if broken then .anywhere after else .sameLine after
        else passBlanks through limit broken after
    | '/' :: _ => .slash
    | rest => .anywhere rest

/-- Whether the word at the head of a text, whose first two characters
are `in`, is an operator. -/
def startsOperatorWord (afterIn : List Char) : Bool :=
  let word := "stanceof".toList
  if !(afterIn.head?.any Char.isAlpha) then true
  else word.isPrefixOf afterIn && !((afterIn.drop word.length).head?.any Char.isAlpha)

/-- Whether a new statement may start with a line, so that a semicolon is
supplied before it. -/
def startsStatement : List Char → Bool
  | [] => true
  | '.' :: cs => cs.head?.any Char.isDigit
  | '+' :: cs => cs.head? = some '+'
  | '-' :: cs => cs.head? = some '-'
  | '!' :: cs => cs.head? ≠ some '='
  | 'i' :: 'n' :: cs => !startsOperatorWord cs
  | c :: _ => !"`,:;*%><=[(?^|&/".toList.contains c

/-- Whether a semicolon is supplied before a line break with this text
behind it. -/
def suppliedBeforeBreak (cs : List Char) : Bool :=
  match passBlanks true (cs.length + 1) false cs with
  | .slash => false
  | .sameLine rest | .anywhere rest => startsStatement rest

/-- The text behind the comments at the head of a text, if a semicolon is
not already turned down or supplied there. -/
def behindComments (bare : Bool) (cs : List Char) : Except Bool (List Char) :=
  if cs.head? = some '/' then
    match passBlanks false (cs.length + 1) false cs with
    | .slash => .error false
    | .sameLine rest => .ok rest
    | .anywhere rest =>
      if bare && rest.head? ≠ some ',' && rest.head? ≠ some '=' then .error true else .ok rest
  else .ok cs

/-- Whether a semicolon is supplied before a text, which is searched for
at most `limit` steps. -/
def suppliedUpTo (bare : Bool) : Nat → List Char → Bool
  | 0, _ => false
  | _ + 1, [] => true
  | limit + 1, c :: cs =>
    match behindComments bare (c :: cs) with
    | .error decision => decision
    | .ok [] => false
    | .ok (c :: cs) =>
      if c = '\x7d' then true
      else if isBreak c then suppliedBeforeBreak cs
      else if isAsciiSpace c then suppliedUpTo bare limit cs
      else false

/-- **Whether a semicolon is supplied before a text.** -/
def isSupplied (bare : Bool) (cs : List Char) : Bool := suppliedUpTo bare (cs.length + 1) cs

namespace Cursor

/-- The place behind the end of a statement, with up to `limit` comments
before it. A written semicolon counts only if `written` is set. -/
def statementEndUpTo (written bare : Bool) : Nat → Cursor → Option Cursor
  | 0, _ => none
  | limit + 1, c =>
    if isSupplied bare c.rest then some c
    else
      let next := c.skip (spaces c.rest)
      if written && next.rest.head? = some ';' then some (next.skip 1)
      else match comment? next.rest with
        | some count => statementEndUpTo written bare limit (next.skip count)
        | none => none

/-- The place behind the end of a statement. -/
def statementEnd? (written bare : Bool) (c : Cursor) : Option Cursor :=
  statementEndUpTo written bare (c.rest.length + 1) c

end Cursor

namespace Reader

/-- **Reads the end of a statement**: a semicolon, written or supplied. -/
def semicolon (bare : Bool) : Reader Unit := do
  match (← get).statementEnd? true bare with
  | some c => set c
  | none => failure

/-- Passes over a supplied semicolon, if there is one. Where one may be
supplied and is not, no mark can stand. -/
def optionalSemicolon (bare : Bool) : Reader Unit := do
  match (← get).statementEnd? false bare with
  | some c => set c
  | none => noMark

/-- Whether a semicolon is supplied here, before or behind comments. -/
def atSupplied (bare : Bool) : Reader Bool := do
  return ((← get).statementEnd? false bare).isSome

end Reader

end ScriptToShell.Scan
