/-!
# Options of a script

Which shell a script is written for, how deep one level of nesting is
indented, and whether the script starts with an interpreter line. The
options have a textual form on the command line; the messages for a text
that is none are part of it.
-/

namespace ScriptToShell

/-- **The shell a script is written for.** -/
inductive Target where
  | bash | posix
deriving DecidableEq, Repr, Inhabited

namespace Target

/-- The interpreter line of a script. -/
def shebang : Target → String
  | .bash => "#!/usr/bin/env bash"
  | .posix => "#!/bin/sh"

/-- The name of a target. -/
def name : Target → String
  | .bash => "bash"
  | .posix => "posix"

/-- The target a text names, or the message that it names none. -/
def parse (text : String) : Except String Target :=
  if text = "bash" then .ok .bash
  else if text = "posix" ∨ text = "sh" then .ok .posix
  else .error ("invalid target: " ++ text ++ " (supported: bash, posix)")

end Target

/-- **One level of indentation.** -/
inductive Indent where
  | spaces (count : Nat)
  | tabs
deriving DecidableEq, Repr, Inhabited

/-- The number a run of decimal digits denotes, with an optional plus
sign before it. -/
def decimal? (text : List Char) : Option Nat :=
  let digits := match text with
    | '+' :: ds => ds
    | ds => ds
  if digits ≠ [] ∧ digits.all Char.isDigit then
    some (digits.foldl (fun n d => 10 * n + (d.toNat - '0'.toNat)) 0)
  else none

namespace Indent

/-- The unit a text names, or the message that it names none. -/
def parse (text : String) : Except String Indent :=
  let bad := .error ("invalid indent: " ++ text ++ " (expected 1-8 or `tab`)")
  if text = "tab" ∨ text = "tabs" then .ok .tabs
  else match decimal? text.toList with
    | some n => if 1 ≤ n ∧ n ≤ 8 then .ok (.spaces n) else bad
    | none => bad

end Indent

/-- **How a script is written.** -/
structure Options where
  /-- The shell the script is for. -/
  target : Target := .bash
  /-- One level of indentation. -/
  indent : Indent := .spaces 2
  /-- Whether the script starts with an interpreter line. -/
  shebang : Bool := true
deriving DecidableEq, Repr, Inhabited

end ScriptToShell
