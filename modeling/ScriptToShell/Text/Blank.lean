/-!
# Blank characters

The white space of the Unicode standard. Lines that hold nothing else
count as blank, and white space is cut from the end of a spliced module
and from both sides of the two halves of a meta property.
-/

namespace ScriptToShell.Text

/-- **White space**: the characters with the Unicode property
`White_Space`. -/
def isBlank (c : Char) : Bool :=
  let n := c.toNat
  (9 ≤ n && n ≤ 13) || n = 0x20 || n = 0x85 || n = 0xA0 || n = 0x1680
    || (0x2000 ≤ n && n ≤ 0x200A) || n = 0x2028 || n = 0x2029 || n = 0x202F
    || n = 0x205F || n = 0x3000

/-- Whether a line holds white space only. -/
def allBlank (cs : List Char) : Bool := cs.all isBlank

/-- A text without white space at its end. -/
def trimEnd (cs : List Char) : List Char := (cs.reverse.dropWhile isBlank).reverse

/-- A text without white space at either end. -/
def trim (cs : List Char) : List Char := trimEnd (cs.dropWhile isBlank)

end ScriptToShell.Text
