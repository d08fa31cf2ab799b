import ScriptToShell.Command.Argument
import ScriptToShell.Shell.Target

/-!
# The command line

A list of texts is read as a command from left to right. An argument that
takes a value is *pending* until its value is known and the next argument
comes: only then the value is looked at. What excludes each other, and
what is missing, is found at the end.
-/

namespace ScriptToShell.Command

/-- **A command as it has been read.** -/
structure Line where
  /-- The arguments that were given, in their order. -/
  given : List Argument := []
  /-- The file or directory to compile. -/
  input : Option String := none
  /-- The file to write to. -/
  out : Option String := none
  /-- The directory to write to. -/
  outDir : Option String := none
  /-- The shell to write for. -/
  target : Target := .bash
  /-- The indentation to write. -/
  indent : Indent := .spaces 2
  /-- How much to report. -/
  verbosity : Nat := 0
deriving DecidableEq, Repr, Inhabited

/-- Whether an argument was given. -/
def Line.has (line : Line) (a : Argument) : Bool := line.given.contains a

/-- **What ends the reading of a command line early.** -/
inductive Halt where
  | help
  | version
  | misuse (cause : Misuse)
deriving DecidableEq, Repr, Inhabited

/-- **The state of the reading**: the command so far, and the argument
whose value is still to be looked at. -/
structure Reading where
  /-- The command so far. -/
  line : Line := {}
  /-- The pending argument, with its value once that is known. -/
  pending : Option (Argument × Option String) := none

namespace Reading

/-- A path as a value: it must not be empty. -/
def pathValue (a : Argument) (value : String) : Except Halt String :=
  if value.isEmpty then .error (.misuse (.missingValue a)) else .ok value

/-- A value that is read by its own rule. -/
def readValue {α : Type} (a : Argument) (value : String) (parse : String → Except String α) :
    Except Halt α :=
  match parse value with
  | .ok result => .ok result
  | .error reason => .error (.misuse (.invalidValue a value reason))

/-- Takes an argument with its value into a command. -/
def store (line : Line) (a : Argument) (value : String) : Except Halt Line := do
  if line.has a then .error (.misuse (.repeated a))
  let line := { line with given := line.given ++ [a] }
  match a with
  | .input => return { line with input := some (← pathValue a value) }
  | .out => return { line with out := some (← pathValue a value) }
  | .outDir => return { line with outDir := some (← pathValue a value) }
  | .target => return { line with target := ← readValue a value Target.parse }
  | .indent => return { line with indent := ← readValue a value Indent.parse }
  | _ => return line

/-- Takes the pending argument into the command. -/
def settle (r : Reading) : Except Halt Line :=
  match r.pending with
  | none => .ok r.line
  | some (a, none) => .error (.misuse (.missingValue a))
  | some (a, some value) => store r.line a value

/-- Takes an argument without a value into the command. -/
def flag (r : Reading) (a : Argument) : Except Halt Reading := do
  let line ← r.settle
  match a with
  | .help => .error .help
  | .version => .error .version
  | .verbose => return { line := { line with verbosity := line.verbosity + 1 } }
  | _ =>
    if line.has a then .error (.misuse (.repeated a))
    return { line := { line with given := line.given ++ [a] } }

/-- Takes an argument with the value that is written with it, or makes it
pending. -/
def valued (r : Reading) (a : Argument) (value : Option String) : Except Halt Reading := do
  let line ← r.settle
  match value with
  | some value => return { line := ← store line a value }
  | none => return { line, pending := some (a, none) }

/-- A text behind two dashes: a name, with a value behind an equals
sign. -/
def long (r : Reading) (text : List Char) : Except Halt Reading :=
  let name := String.ofList (text.takeWhile (· ≠ '='))
  let value := if '=' ∈ text then some (String.ofList ((text.dropWhile (· ≠ '=')).drop 1)) else none
  match Argument.ofLongName? name with
  | none => .error (.misuse (.unexpected ("--" ++ name)))
  | some a =>
    if a.takesValue then r.valued a value
    else match value with
      | some value => .error (.misuse (.unwantedValue a value))
      | none => r.flag a

/-- Letters behind one dash. What follows a letter that takes a value is
the value, with or without an equals sign. -/
def short (r : Reading) : List Char → Except Halt Reading
  | [] => .ok r
  | c :: cs =>
    match Argument.ofLetter? c with
    | none => .error (.misuse (.unexpected ("-" ++ String.singleton c)))
    | some a =>
      if a.takesValue then
        match cs with
        | [] => r.valued a none
        | '=' :: value => r.valued a (some (String.ofList value))
        | value => r.valued a (some (String.ofList value))
      else do
        let next ← r.flag a
        next.short cs

/-- A text that is no option: the value that is waited for, or the
input. -/
def operand (r : Reading) (text : String) (awaited : Bool) : Except Halt Reading :=
  match awaited, r.pending with
  | true, some (a, none) => .ok { r with pending := some (a, some text) }
  | _, some (.input, _) => .error (.misuse (.unexpected text))
  | _, _ =>
    if r.line.has .input then .error (.misuse (.unexpected text))
    else do return { line := ← r.settle, pending := some (.input, some text) }

/-- Reads the texts behind two dashes alone, which are no options. -/
def operands (r : Reading) : List String → Except Halt Reading
  | [] => .ok r
  | text :: texts => do
    let next ← r.operand text false
    next.operands texts

/-- Reads texts from left to right. -/
def texts (r : Reading) : List String → Except Halt Reading
  | [] => .ok r
  | text :: rest => do
    match text.toList with
    | ['-', '-'] => r.operands rest
    | '-' :: '-' :: name =>
      let next ← r.long name
      next.texts rest
    | '-' :: c :: letters =>
      let next ← r.short (c :: letters)
      next.texts rest
    | _ =>
      let next ← r.operand text true
      next.texts rest

end Reading

/-- The first of the given arguments that is excluded by others. -/
def conflict? (given : List Argument) : Option Misuse :=
  given.findSome? fun a =>
    match given.filter a.excludes with
    | [] => none
    | others => some (.conflict a others)

/-- **Reads a command line.** -/
def Line.parse (arguments : List String) : Except Halt Line := do
  let reading ← ({} : Reading).texts arguments
  let line ← reading.settle
  match conflict? line.given, line.input with
  | some cause, _ => .error (.misuse cause)
  | none, none => .error (.misuse .missingInput)
  | none, some _ => return line

end ScriptToShell.Command
