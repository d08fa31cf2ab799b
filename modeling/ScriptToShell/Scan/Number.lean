import ScriptToShell.Scan.Character
import ScriptToShell.Scan.Cursor

/-!
# Numbers

A number is written with digits of base ten, sixteen, eight or two, with
single separators between digits. A decimal may have a fraction and an
exponent if its whole part has no leading zero beyond one before a digit
other than zero. An integer of any base may carry the suffix of a big
integer. Of the forms that fit the text, the longest is the token.
-/

namespace ScriptToShell.Scan

/-- The length of further digits, each with an optional separator before
it. -/
def moreDigits (isDigit : Char → Bool) : List Char → Nat
  | [] => 0
  | [c] => if isDigit c then 1 else 0
  | c :: d :: cs =>
    if isDigit c then moreDigits isDigit (d :: cs) + 1
    else if c = '_' && isDigit d then moreDigits isDigit cs + 2
    else 0

/-- Digits with single separators between them. -/
def digits? (isDigit : Char → Bool) : Lexeme
  | [] => none
  | c :: cs => if isDigit c then some (moreDigits isDigit cs + 1) else none

/-- An integer with a base other than ten, by the letter of its base. -/
def based? (lower upper : Char) (isDigit : Char → Bool) : Lexeme
  | '0' :: c :: cs => if c = lower ∨ c = upper then (digits? isDigit cs).map (· + 2) else none
  | _ => none

/-- The exponent of a decimal. -/
def exponent? : Lexeme
  | c :: s :: cs =>
    if c = 'e' ∨ c = 'E' then
      if s = '+' ∨ s = '-' then (digits? Char.isDigit cs).map (· + 2)
      else (digits? Char.isDigit (s :: cs)).map (· + 1)
    else none
  | _ => none

/-- The whole part of a decimal with a fraction or exponent: a zero, or
digits whose first is not zero, with at most one zero before them. -/
def wholePart? : Lexeme
  | '0' :: c :: cs =>
    if c.isDigit ∧ c ≠ '0' then some (moreDigits Char.isDigit cs + 2) else some 1
  | c :: cs =>
    if c.isDigit then some (if c = '0' then 1 else moreDigits Char.isDigit cs + 1) else none
  | [] => none

/-- A token with an optional one behind it. -/
def thenOption (first second : Lexeme) : Lexeme := fun cs =>
  (first cs).map fun n => n + (second (cs.drop n)).getD 0

/-- A token with another behind it. -/
def thenToken (first second : Lexeme) : Lexeme := fun cs =>
  (first cs).bind fun n => (second (cs.drop n)).map (n + ·)

/-- A decimal point. -/
def point? : Lexeme
  | '.' :: _ => some 1
  | _ => none

/-- The suffix of a big integer. -/
def bigSuffix? : Lexeme
  | 'n' :: _ => some 1
  | _ => none

/-- The forms a number has. -/
def numberForms : List Lexeme :=
  [thenOption (based? 'x' 'X' isHexDigit) bigSuffix?,
   thenOption (based? 'b' 'B' isBinaryDigit) bigSuffix?,
   thenOption (based? 'o' 'O' isOctalDigit) bigSuffix?,
   thenOption (digits? Char.isDigit) bigSuffix?,
   thenOption (thenOption (thenToken wholePart? point?) (digits? Char.isDigit)) exponent?,
   thenOption (thenToken point? (digits? Char.isDigit)) exponent?,
   thenToken wholePart? exponent?]

/-- **A number.** -/
def number? : Lexeme := fun cs => (numberForms.filterMap (· cs)).max?

end ScriptToShell.Scan
