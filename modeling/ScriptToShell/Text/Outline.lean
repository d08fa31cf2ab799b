/-!
# Outlines

An `Outline` is a value of nested parts, and `Outline.text` lays it out
with one part on a line, each level four spaces deeper than the one around
it and every part closed by a comma.
-/

namespace ScriptToShell

/-- **A value of nested parts.** -/
inductive Outline where
  /-- A value on one line. -/
  | leaf (text : String)
  /-- A name with parts in parentheses. -/
  | apply (name : String) (parts : List Outline)
  /-- A name with named parts in braces. -/
  | record (name : String) (fields : List (String × Outline))
  /-- Parts in brackets. -/
  | list (parts : List Outline)
deriving Inhabited

namespace Outline

/-- The start of a line at a depth. -/
def margin (depth : Nat) : String := String.ofList (List.replicate (4 * depth) ' ')

mutual

/-- **An outline as text**, from a place at the given depth. -/
def text (depth : Nat) : Outline → String
  | .leaf value => value
  | .apply name parts => name ++ "(\n" ++ partLines (depth + 1) parts ++ margin depth ++ ")"
  | .record name fields =>
    name ++ " \x7b\n" ++ fieldLines (depth + 1) fields ++ margin depth ++ "\x7d"
  | .list [] => "[]"
  | .list parts => "[\n" ++ partLines (depth + 1) parts ++ margin depth ++ "]"

/-- Parts on lines of their own. -/
def partLines (depth : Nat) : List Outline → String
  | [] => ""
  | part :: parts => margin depth ++ part.text depth ++ ",\n" ++ partLines depth parts

/-- Named parts on lines of their own. -/
def fieldLines (depth : Nat) : List (String × Outline) → String
  | [] => ""
  | (name, part) :: fields =>
    margin depth ++ name ++ ": " ++ part.text depth ++ ",\n" ++ fieldLines depth fields

end

/-- An optional part. -/
def option : Option Outline → Outline
  | some part => .apply "Some" [part]
  | none => .leaf "None"

end Outline

end ScriptToShell
