import ScriptToShell.Text.Visible

/-!
# Quoted text

A text in double quotes, on one line and with every character visible:
quotes, backslashes and the usual controls have a short escape, and a
character without a shape of its own is given by its code point.
-/

namespace ScriptToShell.Text

/-- The escape of a character by its code point. -/
def codePointEscape (c : Char) : List Char :=
  '\\' :: 'u' :: '\x7b' :: Nat.toDigits 16 c.toNat ++ ['\x7d']

/-- **A character inside quotes.** -/
def escapeChar (c : Char) : List Char :=
  if c = '\x00' then ['\\', '0']
  else if c = '\t' then ['\\', 't']
  else if c = '\r' then ['\\', 'r']
  else if c = '\n' then ['\\', 'n']
  else if c = '\x22' || c = '\\' then ['\\', c]
  else if isVisible c then [c]
  else codePointEscape c

/-- **A text in quotes.** -/
def quoted (text : String) : String :=
  "\"" ++ String.ofList (text.toList.flatMap escapeChar) ++ "\""

end ScriptToShell.Text
