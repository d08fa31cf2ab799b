import ScriptToShell.Emit.Fault
import ScriptToShell.Shell.Target

/-!
# The state of an emission

While statements are written, three counters say how many `if`s,
functions and `switch`es stand around the current one. A `return` needs a
function around it, the message for a stray `break` depends on the
`switch`es, and only an outermost `if` is set off by blank lines.

A level is entered for the time of its body and left again whether or not
the body fails.
-/

namespace ScriptToShell

/-- **How deep the current statement stands.** -/
structure Nesting where
  /-- The number of surrounding conditionals. -/
  ifs : Nat := 0
  /-- The number of surrounding functions. -/
  functions : Nat := 0
  /-- The number of surrounding switches. -/
  switches : Nat := 0
deriving DecidableEq, Repr, Inhabited

/-- **What an emission depends on**: the options of the script and the
generated text of each module it may import. -/
structure Setting where
  /-- The options of the script. -/
  options : Options := {}
  /-- The generated text of a module, by its specifier. -/
  modules : String → Except Fault String

/-- **An emission**: it may fail, and moves through the nesting. The
nesting is known after a failure, too. -/
abbrev Emission := ExceptT Fault (StateM Nesting)

namespace Emission

/-- Runs an emission from a nesting: its outcome and the nesting behind
it. -/
def runFrom {α : Type} (m : Emission α) (nesting : Nesting) : Except Fault α × Nesting :=
  StateT.run (ExceptT.run m) nesting

/-- Runs a body between a step into a level and the step out of it. The
step out is taken even if the body fails. -/
def between {α : Type} (enter leave : Nesting → Nesting) (body : Emission α) : Emission α :=
  ExceptT.mk do
    modify enter
    let outcome ← body.run
    modify leave
    return outcome

/-- A body one conditional deeper. -/
def insideIf {α : Type} (body : Emission α) : Emission α :=
  between (fun n => { n with ifs := n.ifs + 1 }) (fun n => { n with ifs := n.ifs - 1 }) body

/-- A body one function deeper. -/
def insideFunction {α : Type} (body : Emission α) : Emission α :=
  between (fun n => { n with functions := n.functions + 1 })
    (fun n => { n with functions := n.functions - 1 }) body

/-- A body one switch deeper. -/
def insideSwitch {α : Type} (body : Emission α) : Emission α :=
  between (fun n => { n with switches := n.switches + 1 })
    (fun n => { n with switches := n.switches - 1 }) body

end Emission

end ScriptToShell
