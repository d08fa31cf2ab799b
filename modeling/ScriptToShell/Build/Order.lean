import ScriptToShell.Emit.Fault

/-!
# The order of modules

The text of a module is spliced into the scripts that import it, so a
module comes after the modules it imports. The order is that of a
depth-first walk over the imports. A module that is met again while its
own imports are still being walked is part of a circle, and then there is
no order.
-/

namespace ScriptToShell

/-- **The imports of a set of modules**, by path. A path that is not among
the modules is outside the set and needs no place in the order. -/
abbrev ImportGraph := List (Path × List Path)

namespace ImportGraph

/-- The module of the set that a path leads to, with its imports. Paths
that take the same steps lead to the same module, however they are
written. -/
def entry? (g : ImportGraph) (path : Path) : Option (Path × List Path) :=
  g.find? fun entry => entry.1.components = path.components

/-- The circle that closes when a module is met again on the way to
it. -/
def circle (way : List Path) (path : Path) : List Path :=
  way.dropWhile (· ≠ path) ++ [path]

/-- How many modules of the set are not on the way. -/
def ahead (g : ImportGraph) (way : List Path) : Nat :=
  (g.filter (·.1 ∉ way)).length

/-- A module that is not on the way is one less ahead once it is. -/
theorem ahead_append_lt {g : ImportGraph} {way : List Path} {path file : Path}
    {imports : List Path} (found : g.entry? path = some (file, imports)) (fresh : file ∉ way) :
    g.ahead (way ++ [file]) < g.ahead way := by
  have hmem : (file, imports) ∈ g := List.mem_of_find?_eq_some found
  have hsub : g.filter (·.1 ∉ way ++ [file])
      = (g.filter (·.1 ∉ way)).filter (·.1 ≠ file) := by
    rw [List.filter_filter]
    refine List.filter_congr fun entry _ => ?_
    simp [and_comm]
  unfold ahead
  rw [hsub]
  exact List.length_filter_lt_length_iff_exists.2
    ⟨(file, imports), List.mem_filter.2 ⟨hmem, by simpa using fresh⟩, by simp⟩

/-- Visits the module a path leads to: its imports first, then itself.
`way` are the modules whose imports are being walked, and `order` those
that are done. A way never meets a module twice, so it cannot outgrow the
set. -/
def visit (g : ImportGraph) (way order : List Path) (path : Path) : Except Fault (List Path) :=
  match _ : g.entry? path with
  | none => .ok order
  | some (file, imports) =>
    if file ∈ order then .ok order
    else if _ : file ∈ way then .error (.importCycle (circle way file))
    else do
      let order ← imports.foldlM (fun order next => visit g (way ++ [file]) order next) order
      return order ++ [file]
termination_by g.ahead way
decreasing_by exact ahead_append_lt ‹_› ‹_›

/-- **The modules of a set in the order of their imports.** The walk
starts from each module in the order of the paths, whatever the order of
the set. -/
def order (g : ImportGraph) : Except Fault (List Path) :=
  ((g.map (·.1)).mergeSort Path.le).foldlM (g.visit []) []

end ImportGraph

end ScriptToShell
