import ScriptToShell.Scan.Trivia

/-!
# Names

A name is a run of name characters that does not start with a digit;
escapes for single characters may stand in for them and are kept as they
are written. A private name has a `#` before it.

A keyword is a name like any other, except where the grammar can take the
keyword. So the readers of the grammar ask for a name and compare it.
-/

namespace ScriptToShell.Scan

/-- An escape inside a name: `\u` and four hexadecimal digits, or any
number of them in braces. -/
def nameEscape? : Lexeme
  | '\\' :: 'u' :: '\x7b' :: cs =>
    let digits := (cs.takeWhile isHexDigit).length
    if digits ≠ 0 ∧ (cs.drop digits).head? = some '\x7d' then some (digits + 4) else none
  | '\\' :: 'u' :: cs =>
    if 4 ≤ cs.length ∧ (cs.take 4).all isHexDigit then some 6 else none
  | _ => none

/-- One character of a name, plain or escaped. -/
def nameChar? (plain : Char → Bool) : Lexeme
  | [] => none
  | c :: cs => if plain c then some 1 else nameEscape? (c :: cs)

/-- The length of up to `limit` name characters. -/
def nameRest : Nat → List Char → Nat
  | 0, _ => 0
  | limit + 1, cs =>
    match nameChar? isNameChar cs with
    | some count => count + nameRest limit (cs.drop count)
    | none => 0

/-- **A name.** -/
def name? : Lexeme := fun cs =>
  (nameChar? isNameStart cs).map fun count => count + nameRest cs.length (cs.drop count)

/-- **A private name**: a `#` and a name. -/
def privateName? : Lexeme
  | '#' :: cs => (name? cs).map (· + 1)
  | _ => none

namespace Reader

/-- Reads a name. -/
def name : Reader String := String.ofList <$> token name?

/-- Reads a private name. -/
def privateName : Reader String := String.ofList <$> token privateName?

/-- Reads a given name. -/
def keyword (word : String) : Reader Unit := do
  require ((← name) = word)

end Reader

/-- The name at the head of a text. -/
def headName? (cs : List Char) : Option String :=
  (name? cs).map fun count => String.ofList (cs.take count)

end ScriptToShell.Scan
