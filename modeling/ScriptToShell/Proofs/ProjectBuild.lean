import ScriptToShell.Proofs.Inline
import ScriptToShell.Proofs.ModuleOrder
import ScriptToShell.Proofs.TreeGrowth

/-!
# A build is inlining

A build reads the sources of a directory, puts them in the order of their
imports and compiles one after the other, each with the texts of those
before it. This module follows such a build on a tree of files and shows
that the script of every source has the code lines of the inlined source
(`buildProject_inlines`).

The build is followed along the order. Its invariant is that for every
source compiled so far, chunks that stand for it are known, and that their
text can be found (`Project.compileAll_stands`). The order sees to it that
a source finds what it imports, and that a tree only grows sees to it that
an import leads where it did when the sources were read.
-/

namespace ScriptToShell

open FileTree Shell

variable {α : Type}

theorem Yields.within {x : ExceptT Failure (StateM FileTree) α} {t t' : FileTree} {a : α}
    (h : Yields x t a t') (hx : Adds x.run) : t.Within t' :=
  Moves.of_yields hx h

/-! ## What a build sees -/

namespace FileTree

/-- The source that a specifier leads to as seen from a file. -/
def sourceOf? (t : FileTree) (importer : Path) (specifier : String) : Option Path :=
  (importPath? importer specifier).bind fun candidate => (t.canonical candidate).toOption

theorem reads_importedSource? (importer : Path) (specifier : String) :
    Reads (importedSource? importer specifier)
      fun t : FileTree => t.sourceOf? importer specifier := by
  intro t
  unfold importedSource? sourceOf?
  cases importPath? importer specifier <;> rfl

/-- **An import keeps leading to its source.** -/
theorem Within.sourceOf?_eq {t t' : FileTree} (h : t.Within t') {importer path : Path}
    {specifier : String} (hsource : t.sourceOf? importer specifier = some path) :
    t'.sourceOf? importer specifier = some path := by
  unfold sourceOf? at hsource ⊢
  obtain ⟨candidate, hcandidate, hcanonical⟩ := Option.bind_eq_some_iff.1 hsource
  rw [hcandidate]
  cases hplace : t.canonical candidate with
  | error refusal =>
    rw [hplace] at hcanonical
    cases hcanonical
  | ok place =>
    rw [hplace] at hcanonical
    cases hcanonical
    show (t'.canonical candidate).toOption = some path
    rw [h.canonical_eq hplace]
    rfl

/-- The generated text of a module, as it is found in a tree. -/
def moduleText (t : FileTree) (layout : Layout) (base : Path) (importer : Option Path)
    (specifier : String) : Except Fault String :=
  let path := layout.resolve base importer specifier
  if t.kind? path = some .file then
    match t.readText path with
    | .ok text => .ok text
    | .error refusal => .error (.moduleUnreadable specifier path refusal.message)
  else .error (.moduleNotFound specifier path)

theorem reads_moduleText (layout : Layout) (base : Path) (importer : Option Path)
    (specifier : String) :
    Reads (ScriptToShell.moduleText layout base importer specifier)
      fun t : FileTree => t.moduleText layout base importer specifier := by
  intro t
  unfold ScriptToShell.moduleText moduleText
  generalize layout.resolve base importer specifier = path
  have hfile : Reads (FileStore.isFile path)
      fun t : FileTree => decide (t.kind? path = some .file) := fun _ => rfl
  have htext : Reads (FileStore.readText path) (FileTree.readText · path) := fun _ => rfl
  dsimp only
  rw [hfile.run_bind]
  by_cases hkind : t.kind? path = some .file
  · rw [if_pos (decide_eq_true hkind), if_pos hkind, htext.run_bind]
    cases t.readText path <;> rfl
  · rw [if_neg (by simpa using hkind), if_neg hkind]
    rfl

/-- The generated text of a module, from those that have been built or from
the tree. -/
def builtText (t : FileTree) (root : Path) (texts : List (Path × String)) (importer : Path)
    (specifier : String) : Except Fault String :=
  match (t.sourceOf? importer specifier).bind fun path => texts.find? (·.1 = path) with
  | some (_, text) => .ok text
  | none => t.moduleText {} root (some importer) specifier

theorem reads_builtText (root : Path) (texts : List (Path × String)) (importer : Path)
    (specifier : String) :
    Reads (ScriptToShell.builtText root texts importer specifier)
      fun t : FileTree => t.builtText root texts importer specifier := by
  intro t
  unfold ScriptToShell.builtText builtText
  rw [(reads_importedSource? importer specifier).run_bind]
  dsimp only
  generalize (t.sourceOf? importer specifier).bind (fun path => texts.find? (·.1 = path)) = built
  cases built with
  | some found => rfl
  | none => exact reads_moduleText {} root (some importer) specifier t

theorem reads_settingFor {fetch : String → StateM FileTree (Except Fault String)}
    {sights : String → FileTree → Except Fault String} (h : ∀ s, Reads (fetch s) (sights s))
    (options : Options) (p : Program) :
    Reads (settingFor options fetch p) fun t =>
      { options, modules := fetched (p.imports.map fun s => (s, sights s t)) } := by
  have htexts := reads_mapM (fun s => reads_bind (h s) fun text => reads_pure (s, text)) p.imports
  intro t
  unfold settingFor
  rw [htexts.run_bind]
  rfl

end FileTree

/-- What has been fetched is at hand. -/
theorem fetched_map {specifiers : List String} {s : String} (h : s ∈ specifiers)
    (f : String → Except Fault String) : fetched (specifiers.map fun s => (s, f s)) s = f s := by
  unfold fetched
  rw [List.find?_map]
  obtain ⟨found, hfound⟩ : ∃ found, specifiers.find? (decide <| · = s) = some found :=
    Option.isSome_iff_exists.1 (List.find?_isSome.2 ⟨s, h, by simp⟩)
  have heq : found = s := by simpa using List.find?_some hfound
  have hcomp : ((fun entry : String × Except Fault String => decide (entry.1 = s))
      ∘ fun s => (s, f s)) = (decide <| · = s) := rfl
  rw [hcomp, hfound, heq]
  rfl

/-! ## Reading a project -/

/-- **A project that has been read from a tree**: paths tell its sources
apart, and the imports of a source are those that lead somewhere. -/
structure Project.ReadFrom (project : Project) (t : FileTree) : Prop where
  /-- Paths tell sources apart. -/
  isMap : project.graph.IsMap
  /-- The imports of a source are where its specifiers lead. -/
  imports : ∀ f ∈ project.files, f.imports = f.program.outerImports.filterMap (t.sourceOf? f.path)

/-- Sources with different paths are told apart. -/
theorem Project.isMap_of_paths {project : Project} {paths : List Path}
    (h : project.files.map (·.path) = (paths.filter isSourcePath).mergeSort Path.le)
    (hpaths : (paths.map Path.components).Nodup) : project.graph.IsMap := by
  have hgraph : project.graph.map (·.1.components)
      = (project.files.map (·.path)).map Path.components := by
    simp [Project.graph]
  unfold ImportGraph.IsMap
  rw [hgraph, h, ((List.mergeSort_perm _ _).map _).nodup_iff]
  exact hpaths.sublist (List.filter_sublist.map _)

/-- What comes of a file: its text, the program it spells, and where its
imports lead. -/
theorem yields_readSourceFile_iff {t t' : FileTree} {path : Path} {f : SourceFile} :
    Yields (readSourceFile path) t f t'
      ↔ ∃ text program, t.readText path = .ok text ∧ Program.parse text = .ok program
        ∧ ⟨path, ⟨path.text, text⟩, program, program.outerImports.filterMap (t.sourceOf? path)⟩ = f
        ∧ t = t' := by
  have hread : Reads (FileStore.readText path) (FileTree.readText · path) := fun _ => rfl
  have hsees := fun program : Program =>
    reads_filterMapM (reads_importedSource? path) program.outerImports
  unfold readSourceFile readSource
  constructor
  · intro h
    obtain ⟨source, t₁, hsource, hrest⟩ := yields_bind_iff.1 h
    obtain ⟨text, t₂, hrun, hpure⟩ := yields_bind_iff.1 hsource
    obtain ⟨htext, rfl⟩ := (yields_orFail_iff hread).1 hrun
    obtain ⟨rfl, rfl⟩ := yields_pure_iff.1 hpure
    obtain ⟨program, t₂, hparse, hrest⟩ := yields_bind_iff.1 hrest
    obtain ⟨hprogram, rfl⟩ := yields_inSource_iff.1 hparse
    obtain ⟨imports, t₂, himports, hpure⟩ := yields_bind_iff.1 hrest
    obtain ⟨rfl, rfl⟩ := (yields_lift_iff (hsees program)).1 himports
    exact ⟨text, program, htext, hprogram, yields_pure_iff.1 hpure⟩
  · rintro ⟨text, program, htext, hprogram, hpure⟩
    refine yields_bind_iff.2 ⟨⟨path.text, text⟩, t, ?_, ?_⟩
    · exact yields_bind_iff.2 ⟨text, t, (yields_orFail_iff hread).2 ⟨htext, rfl⟩,
        yields_pure_iff.2 ⟨rfl, rfl⟩⟩
    · refine yields_bind_iff.2 ⟨program, t, yields_inSource_iff.2 ⟨hprogram, rfl⟩, ?_⟩
      exact yields_bind_iff.2 ⟨_, t, (yields_lift_iff (hsees program)).2 ⟨rfl, rfl⟩,
        yields_pure_iff.2 hpure⟩

/-- A project is read source by source, in the order of their paths. -/
theorem yields_readProject_iff {t t' : FileTree} {src : Path} {project : Project} :
    Yields (readProject src) t project t'
      ↔ t.canonical src = .ok project.root
        ∧ Yields ((((t.filesUnder project.root).filter isSourcePath).mergeSort Path.le).mapM
            readSourceFile) t project.files t' := by
  have hcanonical : Reads (FileStore.canonical src) (FileTree.canonical · src) := fun _ => rfl
  have hunder : ∀ root, Reads (FileStore.filesUnder root)
      fun t : FileTree => .ok (t.filesUnder root) := fun _ _ => rfl
  unfold readProject
  constructor
  · intro h
    obtain ⟨root, t₁, hrun, hrest⟩ := yields_bind_iff.1 h
    obtain ⟨hroot, rfl⟩ := (yields_orFail_iff hcanonical).1 hrun
    obtain ⟨found, t₁, hfound, hrest⟩ := yields_bind_iff.1 hrest
    obtain ⟨hpaths, rfl⟩ := (yields_orFail_iff (hunder root)).1 hfound
    obtain rfl := Except.ok.inj hpaths
    obtain ⟨files, t₁, hfiles, hpure⟩ := yields_bind_iff.1 hrest
    obtain ⟨rfl, rfl⟩ := yields_pure_iff.1 hpure
    exact ⟨hroot, hfiles⟩
  · rintro ⟨hroot, hfiles⟩
    refine yields_bind_iff.2 ⟨project.root, t, (yields_orFail_iff hcanonical).2 ⟨hroot, rfl⟩, ?_⟩
    refine yields_bind_iff.2 ⟨_, t, (yields_orFail_iff (hunder project.root)).2 ⟨rfl, rfl⟩, ?_⟩
    exact yields_bind_iff.2 ⟨project.files, t', hfiles, yields_pure_iff.2 ⟨rfl, rfl⟩⟩

theorem readFrom_of_yields {t t' : FileTree} (ht : t.WellFormed) {src : Path} {project : Project}
    (h : Yields (readProject src) t project t') : project.ReadFrom t := by
  have hfile : ∀ path f t', Yields (readSourceFile path) t f t' → t' = t ∧ f.path = path
      ∧ f.imports = f.program.outerImports.filterMap (t.sourceOf? f.path) := by
    intro path f t' hf
    obtain ⟨text, program, -, -, rfl, rfl⟩ := yields_readSourceFile_iff.1 hf
    exact ⟨rfl, rfl, rfl⟩
  obtain ⟨-, hpaths, himports⟩ := yields_mapM hfile (yields_readProject_iff.1 h).2
  exact ⟨Project.isMap_of_paths hpaths (ht.nodup_components project.root), himports⟩

/-! ## Sources and their order -/

/-- The modules imported inside a statement, below the outermost level. -/
def Stmt.innerImports : Stmt → List String
  | .importModule _ _ => []
  | s => s.imports

/-- **A project that can be inlined**: names are names to a shell, imports
stand at the outermost level, and each of them leads to a source of the
project. -/
structure Project.SelfContained (project : Project) (t : FileTree) : Prop where
  /-- Names are names to a shell. -/
  names : ∀ f ∈ project.files, ∀ name ∈ f.program.names, isName name = true
  /-- Imports stand at the outermost level. -/
  outer : ∀ f ∈ project.files, ∀ s ∈ f.program.body, s.innerImports = []
  /-- Imports lead to sources of the project. -/
  leads : ∀ f ∈ project.files, ∀ source ∈ f.program.imports,
    ∃ g ∈ project.files, t.sourceOf? f.path source = some g.path

theorem Stmt.mem_importsAll {source : String} {span : Span} {stmts : List Stmt}
    (h : .importModule source span ∈ stmts) : source ∈ Stmt.importsAll stmts := by
  induction stmts with
  | nil => cases h
  | cons s ss ih =>
    rw [importsAll, List.mem_append]
    rcases List.mem_cons.1 h with rfl | hmem
    · rw [imports]
      exact .inl (List.mem_singleton_self source)
    · exact .inr (ih hmem)

namespace Project

variable {project : Project} {t : FileTree}

theorem ReadFrom.file_unique (h : project.ReadFrom t) :
    ∀ f ∈ project.files, ∀ g ∈ project.files, f.path = g.path → f = g := by
  intro f hf g hg heq
  have hnodup : (project.files.map (·.path.components)).Nodup := by
    have hmap := h.isMap
    unfold ImportGraph.IsMap graph at hmap
    rwa [List.map_map] at hmap
  exact List.inj_on_of_nodup_map hnodup hf hg (congrArg Path.components heq)

theorem mem_of_mem_filesAt {paths : List Path} {f : SourceFile} (h : f ∈ project.filesAt paths) :
    f ∈ project.files := by
  obtain ⟨path, -, hfound⟩ := List.mem_filterMap.1 h
  exact List.mem_of_find?_eq_some hfound

theorem map_path_filesAt {paths : List Path} (h : paths ⊆ project.graph.modules) :
    (project.filesAt paths).map (·.path) = paths := by
  induction paths with
  | nil => rfl
  | cons path paths ih =>
    rw [List.cons_subset] at h
    have hsome : (project.files.find? (·.path = path)).isSome = true := by
      obtain ⟨entry, hentry, rfl⟩ := List.mem_map.1 h.1
      obtain ⟨f, hf, rfl⟩ := List.mem_map.1 hentry
      exact List.find?_isSome.2 ⟨f, hf, decide_eq_true rfl⟩
    obtain ⟨found, hfound⟩ := Option.isSome_iff_exists.1 hsome
    have hpath : found.path = path := by simpa using List.find?_some hfound
    have hcons : project.filesAt (path :: paths) = found :: project.filesAt paths := by
      unfold filesAt
      rw [List.filterMap_cons, hfound]
    rw [hcons, List.map_cons, hpath, ih h.2]

/-- A source imports another one within the project, if a specifier leads
there. -/
theorem ReadFrom.imports_of_leads (h : project.ReadFrom t) {f g : SourceFile}
    (hf : f ∈ project.files) (hg : g ∈ project.files) {source : String} {span : Span}
    (hmem : .importModule source span ∈ f.program.body)
    (hleads : t.sourceOf? f.path source = some g.path) :
    project.graph.Imports f.path g.path := by
  refine ⟨?_, f.imports, List.mem_map_of_mem hf, g.path, ?_, rfl⟩
  · exact ImportGraph.mem_modules (List.mem_map_of_mem hg)
  · rw [h.imports f hf]
    exact List.mem_filterMap.2 ⟨source, List.mem_filterMap.2 ⟨_, hmem, rfl⟩, hleads⟩

theorem SelfContained.plain_or_import (h : project.SelfContained t) {f : SourceFile}
    (hf : f ∈ project.files) {s : Stmt} (hs : s ∈ f.program.body) :
    s.Plain (isName · = true) false ∨ ∃ source span, s = .importModule source span := by
  have hnamed := Stmt.forall_partsAll.1 (Stmt.forall_namesAll.1 (h.names f hf)) s hs
  have houter := h.outer f hf s hs
  cases s with
  | importModule source span => exact .inr ⟨source, span, rfl⟩
  | _ => exact .inl ⟨houter, hnamed⟩

end Project

/-! ## Compiling along the order -/

/-- The setting that a source is compiled in. -/
def FileTree.buildSetting (t : FileTree) (root : Path) (texts : List (Path × String))
    (options : Options) (file : SourceFile) : Setting :=
  { options
    modules := fetched (file.program.imports.map fun s => (s, t.builtText root texts file.path s)) }

/-- **One step of a build**: the first source is compiled in its setting,
the tree grows, by a script if scripts are asked for, and the others are
compiled with its text. -/
theorem yields_compileAll_cons {root out : Path} {r : Request} {texts : List (Path × String)}
    {file : SourceFile} {files : List SourceFile} {t t' : FileTree} {modules : List CompiledModule}
    (h : Yields (compileAll root out r texts (file :: files)) t modules t') :
    ∃ chunks t₁ rest, file.program.chunks (t.buildSetting root texts r.options file) = .ok chunks
      ∧ t.Within t₁
      ∧ (r.mode = .emit → Yields
          (writeScript (scriptPath root out file.path) (script r.options chunks) r.executable)
          t () t₁)
      ∧ Yields (compileAll root out r
          ((file.path, script { r.options with shebang := false } chunks) :: texts) files)
          t₁ rest t'
      ∧ modules = ⟨⟨file.path, scriptPath root out file.path⟩, script r.options chunks⟩
          :: rest := by
  unfold compileAll at h
  obtain ⟨w, t₁, hw, hrest⟩ := yields_bind_iff.1 h
  have hsees := reads_settingFor (reads_builtText root texts file.path) r.options file.program
  obtain ⟨rfl, rfl⟩ := (yields_lift_iff hsees).1 hw
  obtain ⟨chunks, t₁, hrun, hrest⟩ := yields_bind_iff.1 hrest
  obtain ⟨hchunks, rfl⟩ := yields_inSource_iff.1 hrun
  refine ⟨chunks, ?_⟩
  dsimp only at hrest
  -- whether or not the script is written, the rest of the build is the same
  obtain ⟨t₁, hwithin, hscript, hrest⟩ : ∃ t₁, t.Within t₁
      ∧ (r.mode = .emit → Yields
          (writeScript (scriptPath root out file.path) (script r.options chunks) r.executable)
          t () t₁)
      ∧ Yields (do
      let compiled ← compileAll root out r
        ((file.path, script { r.options with shebang := false } chunks) :: texts) files
      return ⟨⟨file.path, scriptPath root out file.path⟩, script r.options chunks⟩ :: compiled)
      t₁ modules t' := by
    split at hrest
    · obtain ⟨_, t₁, hwrite, hrest⟩ := yields_bind_iff.1 hrest
      exact ⟨t₁, hwrite.within (adds_writeScript _ _ _), fun _ => hwrite, hrest⟩
    · next hmode => exact ⟨t, .refl t, fun hemit => absurd hemit hmode, hrest⟩
  obtain ⟨rest, t₂, hfiles, hpure⟩ := yields_bind_iff.1 hrest
  obtain ⟨rfl, rfl⟩ := yields_pure_iff.1 hpure
  exact ⟨t₁, rest, hchunks, hwithin, hscript, hfiles, rfl⟩

namespace Project

/-- **A source that has been built**: its text is at hand, and the chunks of
the text stand for it. -/
def Built (project : Project) (t : FileTree) (options : Options) (texts : List (Path × String))
    (file : SourceFile) : Prop :=
  ∃ chunks, project.Stands t.sourceOf? options file.path file.program.body chunks
    ∧ ∃ options', texts.find? (·.1 = file.path) = some (file.path, script options' chunks)

variable {project : Project} {t : FileTree}

/-- A source finds the texts of its imports that are at hand. -/
theorem buildSetting_modules {t₁ : FileTree} (hwithin : t.Within t₁) {root path : Path}
    {texts : List (Path × String)} {options : Options} {f : SourceFile} {source text : String}
    (hsource : source ∈ f.program.imports) (hleads : t.sourceOf? f.path source = some path)
    (hfind : texts.find? (·.1 = path) = some (path, text)) :
    (t₁.buildSetting root texts options f).modules source = .ok text := by
  unfold FileTree.buildSetting
  dsimp only
  rw [fetched_map hsource]
  unfold FileTree.builtText
  rw [hwithin.sourceOf?_eq hleads]
  show (match texts.find? (·.1 = path) with | some (_, text) => _ | none => _) = _
  rw [hfind]

section Step

variable (hread : project.ReadFrom t) {done files : List SourceFile} {f : SourceFile}
  (hknown : ∀ g ∈ done ++ f :: files, g ∈ project.files)
  (horder : project.graph.Scheduled ((done ++ f :: files).map (·.path)))

include hread hknown horder in
/-- The order has put the sources that a source imports among those that are
done. -/
theorem mem_done_of_leads {g : SourceFile} (hg : g ∈ project.files) {source : String} {span : Span}
    (hmem : .importModule source span ∈ f.program.body)
    (hleads : t.sourceOf? f.path source = some g.path) : g ∈ done := by
  have hf : f ∈ project.files := hknown f (List.mem_append_right _ List.mem_cons_self)
  rw [List.map_append, List.map_cons] at horder
  obtain ⟨g', hg', hpath⟩ := List.mem_map.1
    (horder.mem_of_imports (hread.imports_of_leads hf hg hmem hleads))
  obtain rfl := hread.file_unique g' (hknown g' (List.mem_append_left _ hg')) g hg hpath
  exact hg'

include horder in
theorem path_ne_of_mem_done {g : SourceFile} (hg : g ∈ done) : f.path ≠ g.path := by
  have hnodup := horder.nodup
  rw [List.map_append, List.map_cons] at hnodup
  exact ((List.nodup_append.1 hnodup).2.2 g.path (List.mem_map_of_mem hg) f.path
    List.mem_cons_self).symm

include horder in
/-- The texts of the sources that are done stay at hand. -/
theorem find?_cons_of_mem_done {g : SourceFile} (hg : g ∈ done) (text : String)
    (texts : List (Path × String)) :
    ((f.path, text) :: texts).find? (·.1 = g.path) = texts.find? (·.1 = g.path) :=
  List.find?_cons_of_neg (by simpa using path_ne_of_mem_done horder hg)

include hread hknown horder in
/-- The chunks of a source whose imports have been built stand for it. -/
theorem stands_of_built (hself : project.SelfContained t) {root : Path} {options : Options}
    {texts : List (Path × String)} {t₁ : FileTree} (hwithin : t.Within t₁)
    (hdone : ∀ g ∈ done, project.Built t options texts g) {chunks : List String}
    (hchunks : f.program.chunks (t₁.buildSetting root texts options f) = .ok chunks) :
    project.Stands t.sourceOf? options f.path f.program.body chunks := by
  have hf : f ∈ project.files := hknown f (List.mem_append_right _ List.mem_cons_self)
  refine stands_of_chunks (fun s hs => ?_) hchunks
  refine (hself.plain_or_import hf hs).imp_right ?_
  rintro ⟨source, span, rfl⟩
  have hsource := Stmt.mem_importsAll hs
  obtain ⟨g, hg, hleads⟩ := hself.leads f hf source hsource
  obtain ⟨imported, hstands, options', hfind⟩ :=
    hdone g (mem_done_of_leads hread hknown horder hg hs hleads)
  exact ⟨source, span, rfl, g, hg, hleads, imported, hstands, options',
    buildSetting_modules hwithin hsource hleads hfind⟩

end Step

/-- **What is compiled stands for its source**, all along the order. The
sources before are built, the text of each is at hand, and the tree has
grown from the one that the sources were read from. -/
theorem compileAll_stands (hread : project.ReadFrom t) (hself : project.SelfContained t)
    {root out : Path} {r : Request} {done files : List SourceFile} {texts : List (Path × String)}
    {t₁ t' : FileTree} {modules : List CompiledModule} (hwithin : t.Within t₁)
    (hknown : ∀ f ∈ done ++ files, f ∈ project.files)
    (horder : project.graph.Scheduled ((done ++ files).map (·.path)))
    (hdone : ∀ f ∈ done, project.Built t r.options texts f)
    (h : Yields (compileAll root out r texts files) t₁ modules t') :
    modules.map (·.source) = files.map (·.path)
      ∧ ∀ m ∈ modules, ∃ f ∈ files, f.path = m.source
        ∧ ∃ chunks, project.Stands t.sourceOf? r.options f.path f.program.body chunks
          ∧ m.text = script r.options chunks := by
  induction files generalizing done texts t₁ modules with
  | nil =>
    obtain ⟨rfl, rfl⟩ := yields_pure_iff.1 h
    exact ⟨rfl, nofun⟩
  | cons f files ih =>
    obtain ⟨chunks, t₂, rest, hchunks, hgrown, -, hrest, rfl⟩ := yields_compileAll_cons h
    have hstands := stands_of_built hread hknown horder hself hwithin hdone hchunks
    have hdone' : ∀ g ∈ done ++ [f], project.Built t r.options
        ((f.path, script { r.options with shebang := false } chunks) :: texts) g := by
      refine List.forall_mem_append.2 ⟨fun g hg => ?_, List.forall_mem_singleton.2 ?_⟩
      · obtain ⟨chunks', hstands', options', hfind⟩ := hdone g hg
        exact ⟨chunks', hstands', options', (find?_cons_of_mem_done horder hg _ _).trans hfind⟩
      · exact ⟨chunks, hstands, _, List.find?_cons_of_pos (decide_eq_true rfl)⟩
    rw [List.append_cons] at hknown horder
    obtain ⟨hsources, hmodules⟩ := ih (hwithin.trans hgrown) hknown horder hdone' hrest
    refine ⟨congrArg (f.path :: ·) hsources, List.forall_mem_cons.2 ⟨?_, fun m hm => ?_⟩⟩
    · exact ⟨f, List.mem_cons_self, rfl, chunks, hstands, rfl⟩
    · obtain ⟨g, hg, hstands'⟩ := hmodules m hm
      exact ⟨g, List.mem_cons_of_mem f hg, hstands'⟩

/-- **A script that comes to inlining its source**: there is one way to
inline the source, what comes of it can be compiled as a program of its
own, whatever modules there are, and has the same code lines. -/
def IsInlined (project : Project) (t : FileTree) (options : Options) (m : CompiledModule) : Prop :=
  ∃ f ∈ project.files, f.path = m.source
    ∧ ∃ body, project.Inlines t.sourceOf? f.path f.program.body body
      ∧ (∀ body', project.Inlines t.sourceOf? f.path f.program.body body' → body' = body)
      ∧ ∀ modules, ∃ chunks,
        Program.chunks { options, modules } { body, span := f.program.span } = .ok chunks
          ∧ codeLines m.text = codeLines (script options chunks)

theorem Stands.isInlined {options : Options} {f : SourceFile} {chunks : List String}
    (h : project.Stands t.sourceOf? options f.path f.program.body chunks)
    (hread : project.ReadFrom t) (hf : f ∈ project.files) {m : CompiledModule}
    (hpath : f.path = m.source) (htext : m.text = script options chunks) :
    project.IsInlined t options m := by
  obtain ⟨htidy, body, hinlines, hplain, hchunks⟩ := h
  refine ⟨f, hf, hpath, body, hinlines, fun body' => hinlines.unique hread.file_unique,
    fun modules => ?_⟩
  obtain ⟨chunks', hchunks', hcode⟩ := hchunks modules
  refine ⟨chunks', hchunks', ?_⟩
  have htidy' := Stmt.tidy_of_mem_chunks (fun _ hname => hname) hplain hchunks'
  rw [htext, codeLines_script htidy, codeLines_script htidy', hcode]

end Project

/-- **A build is inlining.** If a directory whose sources can be inlined is
built, every source of it is built, and the scripts come to inlining. -/
theorem buildProject_inlines (t t' : FileTree) (src out : Path) (r : Request) (project : Project)
    (built : List BuiltModule) (ht : t.WellFormed) (hread : Yields (readProject src) t project t)
    (hself : project.SelfContained t) (hbuild : Yields (buildProject src out r) t built t') :
    ∃ modules, Yields (compileProject project out r) t modules t'
      ∧ built = modules.map (·.toBuiltModule)
      ∧ (built.map (·.source)).Perm (project.files.map (·.path))
      ∧ ∀ m ∈ modules, project.IsInlined t r.options m := by
  have hfrom := readFrom_of_yields ht hread
  unfold buildProject at hbuild
  obtain ⟨project', t₁, hread', hrest⟩ := yields_bind_iff.1 hbuild
  obtain ⟨rfl, rfl⟩ := hread.unique hread'
  obtain ⟨modules, t₂, hcompile, hpure⟩ := yields_bind_iff.1 hrest
  obtain ⟨rfl, rfl⟩ := yields_pure_iff.1 hpure
  refine ⟨modules, hcompile, rfl, ?_⟩
  unfold compileProject at hcompile
  cases horder : project'.graph.order with
  | error fault =>
    rw [horder] at hcompile
    cases hcompile
  | ok order =>
    rw [horder] at hcompile
    obtain ⟨hscheduled, -⟩ := hfrom.isMap.scheduled_of_order horder
    have hpaths := Project.map_path_filesAt hscheduled.subset_modules
    obtain ⟨hsources, hmodules⟩ := Project.compileAll_stands hfrom hself (.refl t₁)
      (fun f hf => Project.mem_of_mem_filesAt hf) (by rwa [List.nil_append, hpaths])
      (List.forall_mem_nil _) hcompile
    refine ⟨?_, fun m hm => ?_⟩
    · have hlisted : project'.files.map (·.path) = project'.graph.modules := by
        simp [Project.graph, ImportGraph.modules]
      have hbuilt : (modules.map (·.toBuiltModule)).map (·.source) = order := by
        rw [List.map_map]
        exact hsources.trans hpaths
      rw [hbuilt, hlisted]
      exact hfrom.isMap.perm_of_order horder
    · obtain ⟨f, hf, hpath, chunks, hstands, htext⟩ := hmodules m hm
      exact hstands.isInlined hfrom (Project.mem_of_mem_filesAt hf) hpath htext

/-- The sources of a directory, by their names, with what they spell. The
main one imports one source twice, once by way of another one, and an empty
source. -/
def sharedSources : List (String × String × List Stmt) :=
  [("base.js", "f(x);",
      [.expression (.call (.identifier "f" ⟨0, 1⟩) [.identifier "x" ⟨2, 3⟩] ⟨0, 4⟩) ⟨0, 5⟩]),
    ("empty.js", "", []),
    ("left.js", "import './base';", [.importModule "./base" ⟨0, 16⟩]),
    ("main.js", "import './left';import '../app/base.js';import './empty';",
      [.importModule "./left" ⟨0, 16⟩, .importModule "../app/base.js" ⟨16, 40⟩,
        .importModule "./empty" ⟨40, 57⟩])]

/-- A tree with these sources below `/app`. -/
def sharedTree : FileTree :=
  { files := sharedSources.map fun source => (["app", source.1], ⟨source.2.1.toUTF8, false⟩)
    directories := [["app"]] }

/-- What a source is read as. -/
def sharedFile (source : String × String × List Stmt) : SourceFile :=
  let path : Path := ⟨"/app/" ++ source.1⟩
  let program : Program := ⟨source.2.2, ⟨0, source.2.1.utf8ByteSize⟩⟩
  ⟨path, ⟨path.text, source.2.1⟩, program,
    program.outerImports.filterMap (sharedTree.sourceOf? path)⟩

def sharedProject : Project := ⟨⟨"/app"⟩, sharedSources.map sharedFile⟩

theorem sharedTree_inlined :
    sharedTree.WellFormed ∧ Yields (readProject ⟨"/app"⟩) sharedTree sharedProject sharedTree
      ∧ sharedProject.SelfContained sharedTree
      ∧ ∃ built t', Yields (buildProject ⟨"/app"⟩ ⟨"/app/out"⟩ {}) sharedTree built t'
        ∧ ∃ modules, Yields (compileProject sharedProject ⟨"/app/out"⟩ {}) sharedTree modules t'
          ∧ built = modules.map (·.toBuiltModule)
          ∧ (built.map (·.source)).Perm (sharedProject.files.map (·.path))
          ∧ ∀ m ∈ modules, sharedProject.IsInlined sharedTree {} m := by
  have htree : sharedTree.WellFormed := by decide +kernel
  have hfiles : ∀ source ∈ sharedSources,
      Yields (readSourceFile ⟨"/app/" ++ source.1⟩) sharedTree (sharedFile source) sharedTree := by
    have htexts : ∀ source ∈ sharedSources,
        sharedTree.readText ⟨"/app/" ++ source.1⟩ = .ok source.2.1 := by decide +kernel
    have hparse : ∀ source ∈ sharedSources,
        Program.parse source.2.1 = .ok ⟨source.2.2, ⟨0, source.2.1.utf8ByteSize⟩⟩ := by
      unfold sharedSources
      simp only [List.forall_mem_cons]
      exact ⟨rfl, rfl, rfl, rfl, nofun⟩
    intro source hsource
    exact yields_readSourceFile_iff.2
      ⟨_, _, htexts source hsource, hparse source hsource, rfl, rfl⟩
  have hread : Yields (readProject ⟨"/app"⟩) sharedTree sharedProject sharedTree := by
    refine yields_readProject_iff.2 ⟨by decide +kernel, ?_⟩
    have hsorted :
        ((sharedTree.filesUnder sharedProject.root).filter isSourcePath).mergeSort Path.le
          = sharedSources.map fun source => ⟨"/app/" ++ source.1⟩ := by
      rw [List.mergeSort_of_pairwise (by decide +kernel)]
      decide +kernel
    rw [hsorted]
    exact yields_mapM_map hfiles
  have hself : sharedProject.SelfContained sharedTree := by
    have hall : ∀ f ∈ sharedProject.files, (∀ name ∈ f.program.names, isName name = true)
        ∧ (∀ s ∈ f.program.body, s.innerImports = [])
        ∧ ∀ source ∈ f.program.imports, ∃ g ∈ sharedProject.files,
          sharedTree.sourceOf? f.path source = some g.path := by decide +kernel
    exact ⟨fun f hf => (hall f hf).1, fun f hf => (hall f hf).2.1, fun f hf => (hall f hf).2.2⟩
  obtain ⟨modules, t', hcompile⟩ : ∃ modules t',
      Yields (compileProject sharedProject ⟨"/app/out"⟩ {}) sharedTree modules t' := by
    have horder : sharedProject.graph.order = .ok (sharedProject.files.map (·.path)) := by
      show (sharedProject.graph.modules.mergeSort Path.le).foldlM
        (sharedProject.graph.visit []) [] = _
      rw [List.mergeSort_of_pairwise (by decide +kernel)]
      decide +kernel
    unfold compileProject
    rw [horder]
    refine exists_yields ?_
    decide +kernel
  have hbuild : Yields (buildProject ⟨"/app"⟩ ⟨"/app/out"⟩ {}) sharedTree
      (modules.map (·.toBuiltModule)) t' :=
    yields_bind_iff.2 ⟨_, _, hread,
      yields_bind_iff.2 ⟨_, _, hcompile, yields_pure_iff.2 ⟨rfl, rfl⟩⟩⟩
  exact ⟨htree, hread, hself, _, t', hbuild,
    buildProject_inlines sharedTree t' ⟨"/app"⟩ ⟨"/app/out"⟩ {} sharedProject _ htree hread hself
      hbuild⟩

end ScriptToShell
