import ScriptToShell.Scan.Name

/-!
# Strings, templates and regular expressions

A string holds characters and escapes between two equal quotes, and no
raw line end. Its value is what the characters stand for: an escape is
read as the character it names, a backslash before a line end joins the
two lines, and where an escape names no character its own text is the
value.

The characters of a template and of a regular expression only have to be
passed over.
-/

namespace ScriptToShell.Scan

/-- The number of octal digits at the head of a text, at most three. -/
def octalRun (cs : List Char) : Nat := ((cs.take 3).takeWhile isOctalDigit).length

/-- **An escape**: a backslash and one character, up to three octal
digits, a character code, or a line end of two characters. -/
def escape? : Lexeme
  | '\\' :: c :: cs =>
    if c = 'x' then
      if 2 ≤ cs.length ∧ (cs.take 2).all isHexDigit then some 4 else none
    else if c = 'u' then nameEscape? ('\\' :: c :: cs)
    else if isOctalDigit c then some (octalRun (c :: cs) + 1)
    else if (c = '\r' ∨ c = '?') ∧ cs.head?.any isBreak then some 3
    else some 2
  | _ => none

/-- The number hexadecimal digits denote. -/
def hexNumber (digits : List Char) : Nat :=
  digits.foldl (fun n d =>
    16 * n + (if d.isDigit then d.toNat - '0'.toNat else d.toLower.toNat - 'a'.toNat + 10)) 0

/-- The character with a code written in hexadecimal digits. -/
def charOfHex? (digits : List Char) : Option Char :=
  let code := hexNumber digits
  if digits ≠ [] ∧ digits.all isHexDigit ∧ code.isValidChar then some (Char.ofNat code) else none

/-- **What an escape stands for**, from the text behind its backslash. -/
def unescape (body : List Char) : List Char :=
  match body with
  | ['n'] => ['\n']
  | ['t'] => ['\t']
  | ['r'] => ['\r']
  | ['b'] => ['\x08']
  | ['f'] => ['\x0c']
  | ['v'] => ['\x0b']
  | ['0'] => ['\x00']
  | ['\n'] | ['\r', '\n'] | ['\r'] => []
  | 'u' :: '\x7b' :: digits =>
    if digits.getLast? = some '\x7d' then
      ((charOfHex? digits.dropLast).map ([·])).getD body
    else body
  | 'u' :: digits | 'x' :: digits => ((charOfHex? digits).map ([·])).getD body
  | _ => body

/-- The value of a string and the length of its text with the closing
quote, from the text behind the opening one. -/
def stringFrom (quote : Char) : Nat → List Char → Option (List Char × Nat)
  | 0, _ => none
  | _ + 1, [] => none
  | limit + 1, c :: cs =>
    if c = quote then some ([], 1)
    else if c = '\n' ∨ c = '\r' then none
    else if c = '\\' then do
      let count ← escape? (c :: cs)
      let (value, length) ← stringFrom quote limit ((c :: cs).drop count)
      return (unescape (((c :: cs).take count).drop 1) ++ value, length + count)
    else do
      let (value, length) ← stringFrom quote limit cs
      return (c :: value, length + 1)

/-- A string at the head of a text: its value and the length of its
text. -/
def string? : List Char → Option (List Char × Nat)
  | c :: cs =>
    if c = '"' ∨ c = '\'' then (stringFrom c (cs.length + 1) cs).map fun (v, n) => (v, n + 1)
    else none
  | [] => none

/-- The length of plain characters and escapes of a template up to its
end or a substitution. -/
def templateChars : Nat → List Char → Option Nat
  | 0, _ => none
  | _ + 1, [] => none
  | limit + 1, c :: cs =>
    if c = '\x60' then some 0
    else if c = '$' ∧ cs.head? = some '\x7b' then some 0
    else if c = '\\' then do
      let count ← escape? (c :: cs)
      let more ← templateChars limit ((c :: cs).drop count)
      return count + more
    else (templateChars limit cs).map (· + 1)

/-- The length of the inside of a character class with its end. -/
def classEnd? : List Char → Option Nat
  | [] => none
  | ']' :: _ => some 1
  | '\\' :: c :: cs => if c = '\n' then none else (classEnd? cs).map (· + 2)
  | c :: cs => if c = '\n' ∨ c = '\\' then none else (classEnd? cs).map (· + 1)

/-- The length of a pattern up to the slash that ends it. -/
def patternUpTo : Nat → List Char → Option Nat
  | 0, _ => none
  | _ + 1, [] => none
  | limit + 1, c :: cs =>
    if c = '/' then some 0
    else if c = '\n' then none
    else if c = '[' then do
      let count ← classEnd? cs
      let more ← patternUpTo limit (cs.drop count)
      return count + more + 1
    else if c = '\\' then
      if cs = [] ∨ cs.head? = some '\n' then none
      else (patternUpTo limit (cs.drop 1)).map (· + 2)
    else (patternUpTo limit cs).map (· + 1)

/-- **A regular expression**: a pattern that is not empty between two
slashes, and flags. -/
def regex? : Lexeme
  | '/' :: cs =>
    match patternUpTo (cs.length + 1) cs with
    | some (count + 1) =>
      let flags := ((cs.drop (count + 2)).takeWhile fun c => 'a' ≤ c && c ≤ 'z').length
      some (count + 3 + flags)
    | _ => none
  | _ => none

namespace Reader

/-- Reads a string and gives its value. -/
def string : Reader String := do
  match string? (← ahead) with
  | some (value, count) =>
    modify (·.skip count)
    return String.ofList value
  | none => failure

end Reader

end ScriptToShell.Scan
