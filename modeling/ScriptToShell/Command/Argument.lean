/-!
# The arguments of the command

Which arguments the command knows, how they are written, and which of
them exclude each other.
-/

namespace ScriptToShell.Command

/-- **An argument of the command.** -/
inductive Argument where
  | input | out | outDir | target | indent | noShebang | check | emitAst | chmodX | noChmodX
  | verbose | help | version
deriving DecidableEq, Repr, Inhabited

namespace Argument

/-- The arguments that are given by name. -/
def options : List Argument :=
  [.out, .outDir, .target, .indent, .noShebang, .check, .emitAst, .chmodX, .noChmodX, .verbose,
   .help, .version]

/-- The name of an argument, to be written behind two dashes. -/
def longName : Argument → String
  | .input => "input"
  | .out => "out"
  | .outDir => "out-dir"
  | .target => "target"
  | .indent => "indent"
  | .noShebang => "no-shebang"
  | .check => "check"
  | .emitAst => "emit-ast"
  | .chmodX => "chmod-x"
  | .noChmodX => "no-chmod-x"
  | .verbose => "verbose"
  | .help => "help"
  | .version => "version"

/-- The argument with a name. -/
def ofLongName? (name : String) : Option Argument := options.find? (·.longName = name)

/-- The argument a letter stands for behind one dash. -/
def ofLetter? (c : Char) : Option Argument :=
  if c = 'o' then some .out
  else if c = 'v' then some .verbose
  else if c = 'h' then some .help
  else if c = 'V' then some .version
  else none

/-- Whether an argument takes a value. -/
def takesValue : Argument → Bool
  | .out | .outDir | .target | .indent => true
  | _ => false

/-- How a message shows an argument. -/
def shown : Argument → String
  | .input => "<INPUT>"
  | .out => "--out <FILE>"
  | .outDir => "--out-dir <DIR>"
  | .target => "--target <TARGET>"
  | .indent => "--indent <N|tab>"
  | .verbose => "--verbose..."
  | a => "--" ++ a.longName

/-- The pairs of arguments that exclude each other. -/
def exclusions : List (Argument × Argument) :=
  [(.check, .emitAst), (.check, .out), (.emitAst, .outDir), (.noChmodX, .chmodX)]

/-- **Whether two arguments exclude each other.** -/
def excludes (a b : Argument) : Bool :=
  exclusions.contains (a, b) || exclusions.contains (b, a)

end Argument

/-- **Why an argument list is none of this command.** -/
inductive Misuse where
  | unexpected (text : String)
  | missingInput
  | missingValue (argument : Argument)
  | invalidValue (argument : Argument) (value reason : String)
  | repeated (argument : Argument)
  | conflict (argument : Argument) (others : List Argument)
  | unwantedValue (argument : Argument) (value : String)
deriving DecidableEq, Repr, Inhabited

/-- The first line of the message of a misuse. -/
def Misuse.message : Misuse → String
  | .unexpected text => "error: unexpected argument '" ++ text ++ "' found"
  | .missingInput => "error: the following required arguments were not provided:"
  | .missingValue a => "error: a value is required for '" ++ a.shown ++ "' but none was supplied"
  | .invalidValue a value reason =>
    "error: invalid value '" ++ value ++ "' for '" ++ a.shown ++ "': " ++ reason
  | .repeated a => "error: the argument '" ++ a.shown ++ "' cannot be used multiple times"
  | .conflict a [other] =>
    "error: the argument '" ++ a.shown ++ "' cannot be used with '" ++ other.shown ++ "'"
  | .conflict a _ => "error: the argument '" ++ a.shown ++ "' cannot be used with:"
  | .unwantedValue a value =>
    "error: unexpected value '" ++ value ++ "' for '" ++ a.shown ++ "' found; no more were expected"

end ScriptToShell.Command
