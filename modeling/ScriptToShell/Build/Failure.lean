import ScriptToShell.Emit.Fault
import ScriptToShell.Store.Basic

/-!
# Failures

The reasons for which a command comes to nothing: a file that is not
there or cannot be read or written, a program with a fault, or a command
that makes no sense. A failure has a message and an exit code.
-/

namespace ScriptToShell

/-- What is wrong with a command. -/
inductive Misfit where
  /-- A choice about executable scripts, and no script is written. -/
  | executableWithoutOutput
  /-- One output file for a directory. -/
  | fileForDirectory
  /-- No place for the scripts of a directory. -/
  | directoryWithoutOutput
  /-- An output directory for a single file. -/
  | directoryForFile
deriving DecidableEq, Repr, Inhabited

/-- What a command lacks, in words. -/
def Misfit.message : Misfit → String
  | .executableWithoutOutput => "--no-chmod-x/--chmod-x require --out or --out-dir"
  | .fileForDirectory => "--out takes a file; use --out-dir for a directory"
  | .directoryWithoutOutput => "a directory input requires --out-dir"
  | .directoryForFile => "--out-dir requires a directory input"

/-- **Why a command comes to nothing.** -/
inductive Failure where
  | missingFile (path : Path)
  | unreadableFile (path : Path) (reason : Refusal)
  | unreadableDirectory (path : Path) (reason : Refusal)
  /-- The files below a directory cannot be listed. -/
  | unlisted (root : Path) (reason : Refusal)
  | uncreatable (path : Path) (reason : Refusal)
  | unwritable (path : Path) (reason : Refusal)
  /-- A program has a fault. -/
  | faulty (fault : Fault) (source : SourceMap)
  /-- Modules cannot be put in order. -/
  | unordered (fault : Fault)
  | misfit (cause : Misfit)
deriving Repr, Inhabited

namespace Failure

/-- **The message of a failure.** -/
def message : Failure → String
  | .missingFile path => "File not found: " ++ path.text
  | .unreadableFile path reason =>
    "Unable to read file: " ++ path.text ++ " (" ++ reason.message ++ ")"
  | .unreadableDirectory path reason =>
    "Unable to read directory: " ++ path.text ++ " (" ++ reason.message ++ ")"
  | .unlisted root reason => "Unable to walk " ++ root.text ++ ": " ++ reason.message
  | .uncreatable path reason => "Failed to create " ++ path.text ++ ": " ++ reason.message
  | .unwritable path reason => "Failed to write to " ++ path.text ++ ": " ++ reason.message
  | .faulty fault source => fault.render source
  | .unordered fault => fault.message
  | .misfit cause => "error: " ++ cause.message

/-- **The exit code of a failure**: that of the fault, or one. -/
def code : Failure → Nat
  | .faulty fault _ => fault.exitCode
  | .unordered fault => fault.exitCode
  | _ => 1

end Failure

end ScriptToShell
