import ScriptToShell.Path.Basic

/-!
# Where generated modules live

A `Layout` says how a tree of sources maps onto the tree of generated
scripts: a directory with the name of the source directory becomes the
output directory, and the extension of a script becomes the extension of
a generated one. An import names a source module; the text to splice in
is found at the place the layout gives it.
-/

namespace ScriptToShell

/-- **How a source tree maps onto its generated tree.** -/
structure Layout where
  /-- Directories of this name hold sources. -/
  sourceDir : String := "javascript"
  /-- The name such a directory has in the generated tree. -/
  outputDir : String := "shellscript"
  /-- The extension of generated scripts. -/
  extension : String := "sh"
deriving DecidableEq, Repr, Inhabited

namespace Layout

/-- Whether a file with this extension is taken for a script. -/
def isScript (extension : Option String) : Bool :=
  match extension with
  | none => true
  | some e => e = "js" || e = "mjs" || e = "cjs"

/-- The component of the generated tree for one of the source tree. -/
def outputComponent (layout : Layout) : Path.Component → Path.Component
  | .normal name => .normal (if name = layout.sourceDir then layout.outputDir else name)
  | c => c

/-- **The place of a generated module**, from the path of its source. An
extension that is not text counts as none, which matters for paths given
as bytes. -/
def outputPath (layout : Layout) (source : Path) (isText : String → Bool := fun _ => true) :
    Path :=
  let out := Path.ofComponents (source.components.map layout.outputComponent)
  if isScript (out.extension?.filter isText) then out.withExtension layout.extension else out

/-- The place of the module a specifier names. It is read relative to
the directory of the importing file, or to `base` where there is
none. -/
def resolve (layout : Layout) (base : Path) (importer : Option Path) (specifier : String) : Path :=
  ((importer.bind Path.parent).getD base).join (layout.outputPath ⟨specifier⟩)

end Layout

end ScriptToShell
