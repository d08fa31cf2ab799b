import ScriptToShell.Path.Basic
import ScriptToShell.Source.Map
import ScriptToShell.Text.Lines
import ScriptToShell.Tree.Basic

/-!
# Faults

The reasons for which a program does not become a script. Each has a
message, an exit code and, where it is about a place in the program, a
span under which the message is shown.
-/

namespace ScriptToShell

/-- **Why a program does not become a script.** -/
inductive Fault where
  /-- The text is no program. -/
  | malformed (message : String) (line column : Nat) (span : Span)
  /-- A construct has no shell counterpart. -/
  | unsupported (kind : NodeKind) (detail : Option String) (span : Option Span)
  /-- An operator has no counterpart in a part of the shell. -/
  | invalidOperator (op : BinaryOp) (target : String) (span : Span)
  /-- No generated text exists for an imported module. -/
  | moduleNotFound (specifier : String) (path : Path)
  /-- The generated text of an imported module cannot be read. -/
  | moduleUnreadable (specifier : String) (path : Path) (reason : String)
  /-- Modules import each other in a circle. -/
  | importCycle (chain : List Path)
deriving DecidableEq, Repr, Inhabited

namespace Fault

/-- **The message of a fault.** -/
def message : Fault → String
  | .malformed message line column _ =>
    "syntax error at " ++ toString line ++ ":" ++ toString column ++ ": " ++ message
  | .unsupported kind none _ => "unsupported construct `" ++ kind.name ++ "`"
  | .unsupported kind (some detail) _ => "unsupported construct `" ++ kind.name ++ "`: " ++ detail
  | .invalidOperator op target _ =>
    "operator `" ++ op.token ++ "` has no " ++ target ++ " equivalent"
  | .moduleNotFound specifier path =>
    "module `" ++ specifier ++ "` not found (looked for " ++ path.text ++ ")"
  | .moduleUnreadable specifier path reason =>
    "failed to read module `" ++ specifier ++ "` at " ++ path.text ++ ": " ++ reason
  | .importCycle chain => "import cycle detected: " ++ Text.joinWith " -> " (chain.map Path.text)

/-- Where in the program a fault is. -/
def span? : Fault → Option Span
  | .malformed _ _ _ span => some span
  | .unsupported _ _ span => span
  | .invalidOperator _ _ span => some span
  | _ => none

/-- The exit code of a fault: one if a file could not be read, two if
the program is at fault. -/
def exitCode : Fault → Nat
  | .moduleUnreadable .. => 1
  | _ => 2

/-- **A fault shown against its source**, with a marker under the place
where that is known. -/
def render (fault : Fault) (source : SourceMap) : String :=
  match fault, fault.span? with
  | .malformed message _ _ span, _ => source.diagnostic ("syntax error: " ++ message) span
  | _, some span => source.diagnostic fault.message span
  | _, none => source.name ++ ": error: " ++ fault.message

/-- A construct without a shell counterpart, at its place. -/
def notSupported (kind : NodeKind) (span : Span) : Fault :=
  .unsupported kind none (some span)

/-- A construct without a shell counterpart, at its place and with the
reason. -/
def notSupportedFor (kind : NodeKind) (detail : String) (span : Span) : Fault :=
  .unsupported kind (some detail) (some span)

end Fault

end ScriptToShell
