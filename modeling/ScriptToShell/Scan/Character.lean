/-!
# Classes of characters

The source language has a white space of its own, which holds a few
characters of no width besides the separators of the Unicode standard.
Names may hold any character that is neither white space, a control
character nor punctuation; they do not start with a digit.

The end of a statement is looked for with a narrower notion: there only
the white space of ASCII is passed over.
-/

namespace ScriptToShell.Scan

/-- The white space of ASCII: tab, line feed, vertical tab, form feed,
carriage return and space. -/
def isAsciiSpace (c : Char) : Bool :=
  (9 ≤ c.toNat && c.toNat ≤ 13) || c = ' '

/-- A space separator of the Unicode standard. -/
def isSpaceSeparator (c : Char) : Bool :=
  let n := c.toNat
  n = 0x20 || n = 0xA0 || n = 0x1680 || (0x2000 ≤ n && n ≤ 0x200A) || n = 0x202F || n = 0x205F
    || n = 0x3000

/-- The line separator and the paragraph separator. -/
def isSeparator (c : Char) : Bool := c.toNat = 0x2028 || c.toNat = 0x2029

/-- **White space** between tokens. -/
def isSpace (c : Char) : Bool :=
  isAsciiSpace c || isSpaceSeparator c || isSeparator c || c.toNat = 0xFEFF || c.toNat = 0x2060
    || c.toNat = 0x200B

/-- A character that breaks a line where the end of a statement is looked
for: a carriage return alone does not. -/
def isBreak (c : Char) : Bool := c = '\n' || isSeparator c

/-- A character that ends a line comment. -/
def endsLine (c : Char) : Bool := isBreak c || c = '\r'

/-- Punctuation, which no name holds. -/
def isPunctuation (c : Char) : Bool :=
  ":;`\"'@#.,|^&<=>+-*/\\%?!~()[]\x7b\x7d".toList.contains c

/-- **A character of a name.** -/
def isNameChar (c : Char) : Bool :=
  0x20 ≤ c.toNat && !isSpace c && !isPunctuation c

/-- A character a name starts with. -/
def isNameStart (c : Char) : Bool := isNameChar c && !c.isDigit

/-- A hexadecimal digit. -/
def isHexDigit (c : Char) : Bool :=
  c.isDigit || ('a' ≤ c && c ≤ 'f') || ('A' ≤ c && c ≤ 'F')

/-- An octal digit. -/
def isOctalDigit (c : Char) : Bool := '0' ≤ c && c ≤ '7'

/-- A binary digit. -/
def isBinaryDigit (c : Char) : Bool := c = '0' || c = '1'

end ScriptToShell.Scan
