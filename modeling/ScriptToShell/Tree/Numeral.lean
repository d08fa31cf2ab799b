import ScriptToShell.Tree.Basic

/-!
# Number texts

A number literal is kept as it is written, so its value matters in two
places only. As an argument it may stand unquoted if its text is a
decimal floating-point number, and as a condition it counts as false if
its value is zero or not a number.

Whether a decimal is zero is decided without rounding it: a double is
zero exactly if the decimal is at most half the least positive double,
which is `2 ^ (-1074)`; the tie goes to zero.
-/

namespace ScriptToShell.Numeral

/-- **A floating-point text, read**: a decimal `mantissa * 10 ^ exponent`
whose mantissa is written with `width` digits, or a value that is no
decimal. The sign is not kept. -/
inductive FloatText where
  | decimal (mantissa : Nat) (width : Nat) (exponent : Int)
  | infinity
  | nan
deriving DecidableEq, Repr, Inhabited

/-- The number a run of digits of a base denotes. -/
def digitsValue (base : Nat) (digitValue : Char → Nat) (digits : List Char) : Nat :=
  digits.foldl (fun n d => base * n + digitValue d) 0

/-- The value of a decimal or hexadecimal digit. -/
def hexValue (c : Char) : Nat :=
  if c.isDigit then c.toNat - '0'.toNat else c.toLower.toNat - 'a'.toNat + 10

/-- Whether a character is a digit of a base up to sixteen. -/
def isDigitOf (base : Nat) (c : Char) : Bool :=
  (c.isDigit || ('a' ≤ c.toLower && c.toLower ≤ 'f')) && hexValue c < base

/-- A text without one leading sign. -/
def dropSign : List Char → List Char
  | '+' :: cs => cs
  | '-' :: cs => cs
  | cs => cs

/-- Whether a text starts with a minus sign. -/
def isNegative (cs : List Char) : Bool := cs.head? = some '-'

/-- The exponent at the end of a decimal; a decimal without one has
exponent zero. -/
def exponent? : List Char → Option Int
  | [] => some 0
  | c :: cs =>
    if c = 'e' ∨ c = 'E' then
      let digits := dropSign cs
      if digits ≠ [] ∧ digits.all Char.isDigit then
        let value : Int := digitsValue 10 hexValue digits
        some (if isNegative cs then -value else value)
      else none
    else none

/-- A decimal without a sign: digits around an optional point, at least
one of them, and an optional exponent. -/
def decimal? (cs : List Char) : Option FloatText :=
  let whole := cs.takeWhile Char.isDigit
  let rest := cs.dropWhile Char.isDigit
  let (fraction, rest) := match rest with
    | '.' :: ds => (ds.takeWhile Char.isDigit, ds.dropWhile Char.isDigit)
    | ds => ([], ds)
  let digits := whole ++ fraction
  if digits = [] then none
  else (exponent? rest).map fun e =>
    .decimal (digitsValue 10 hexValue digits) digits.length (e - fraction.length)

/-- **The floating-point number a text denotes**, if it denotes one. -/
def float? (cs : List Char) : Option FloatText :=
  let body := dropSign cs
  let lower := String.ofList (body.map Char.toLower)
  if lower = "inf" ∨ lower = "infinity" then some .infinity
  else if lower = "nan" then some .nan
  else decimal? body

/-- Whether a floating-point number counts as false: it is zero as a
double, or not a number. -/
def FloatText.isFalsy : FloatText → Bool
  | .infinity => false
  | .nan => true
  | .decimal mantissa width exponent =>
    if mantissa = 0 then true
    else match exponent with
      | .ofNat _ => false
      | .negSucc n => width + 400 < n + 1 || mantissa * Nat.pow 2 1075 ≤ Nat.pow 10 (n + 1)

/-- The number a text denotes in a base, with an optional plus sign, if
it fits a word of 64 bits. -/
def word64? (base : Nat) (cs : List Char) : Option Nat :=
  let digits := match cs with
    | '+' :: ds => ds
    | ds => ds
  if digits ≠ [] ∧ digits.all (isDigitOf base) then
    let value := digitsValue base hexValue digits
    if value < Nat.pow 2 64 then some value else none
  else none

/-- A text without one `n` at its end. -/
def dropSuffixN (cs : List Char) : List Char :=
  match cs.reverse with
  | 'n' :: ds => ds.reverse
  | _ => cs

/-- **Whether a number literal counts as false.** Separators, case, the
suffix of a big integer and one minus sign do not matter. A text that
denotes no number, or an integer in another base of more than 64 bits,
counts as true. -/
def isFalsy (text : String) : Bool :=
  let digits := dropSuffixN ((text.toList.filter (· ≠ '_')).map Char.toLower)
  let digits := match digits with
    | '-' :: ds => ds
    | ds => ds
  match digits with
  | '0' :: 'x' :: ds => word64? 16 ds = some 0
  | '0' :: 'o' :: ds => word64? 8 ds = some 0
  | '0' :: 'b' :: ds => word64? 2 ds = some 0
  | ds => ((float? ds).map FloatText.isFalsy).getD false

/-- Whether a number literal may stand unquoted. -/
def isBare (text : String) : Bool := (float? text.toList).isSome

end ScriptToShell.Numeral

namespace ScriptToShell

/-- **The truth of a literal.** -/
def Literal.truth : Literal → Bool
  | .boolean value => value
  | .null => false
  | .string value => value ≠ ""
  | .number text => !Numeral.isFalsy text

end ScriptToShell
