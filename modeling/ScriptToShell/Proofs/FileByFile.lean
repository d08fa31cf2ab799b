import ScriptToShell.Proofs.ScriptPlaces

/-!
# File by file

A build hands the texts of modules from one source to the next. A source
that is compiled on its own finds the scripts of its modules in the tree.
This module compares the two, once a build has put the scripts beside their
sources (`compileFile_agrees_iff`).

What is handed on and what is found are scripts of the same chunks, and the
options a script is written with do not show where it is imported
(`Stmt.chunks_congr`). The build is followed along its order once more. Its
invariant is that the scripts of the sources before are in place
(`Project.compileAll_recompiles`), and they stay there because a build writes
scripts and nothing else (`Project.FoundBelow.writtenAt`), each of them once,
and none of them over a source.

The two differ where a specifier takes no step. A build may find a source by
it, by the name of a directory, but beside no source is there a script of
that name.
-/

namespace ScriptToShell

open Emit Emission FileTree Shell Text

/-! ## Scripts for modules -/

namespace Stmt

/-- A statement that is no import imports nothing, if imports stand at the
outermost level. -/
theorem imports_eq_nil_or {s : Stmt} (h : s.innerImports = []) :
    s.imports = [] ∨ ∃ source span, s = .importModule source span := by
  cases s with
  | importModule source span => exact .inr ⟨source, span, rfl⟩
  | _ => exact .inl h

/-- **Modules may be given by any script of their chunks.** The options that
a script was written with do not show where it is imported. -/
theorem chunks_congr {options : Options} {modules modules' : String → Except Fault String}
    {stmts : List Stmt} (houter : ∀ s ∈ stmts, s.innerImports = [])
    (h : ∀ source span, .importModule source span ∈ stmts →
      ∃ chunks, (∀ chunk ∈ chunks, Tidy chunk)
        ∧ (∃ options', modules source = .ok (script options' chunks))
        ∧ ∃ options', modules' source = .ok (script options' chunks)) (n : Nesting) :
    outcome (chunks ⟨options, modules⟩ stmts) n = outcome (chunks ⟨options, modules'⟩ stmts) n := by
  induction stmts with
  | nil => rw [outcome_chunks_nil, outcome_chunks_nil]
  | cons s ss ih =>
    rw [List.forall_mem_cons] at houter
    rw [outcome_chunks_cons, outcome_chunks_cons,
      ih houter.2 fun source span hmem => h source span (List.mem_cons_of_mem s hmem)]
    obtain hnone | ⟨source, span, rfl⟩ := imports_eq_nil_or houter.1
    · rw [emit_congr hnone options modules modules']
    · obtain ⟨chunks, htidy, ⟨options₁, h₁⟩, options₂, h₂⟩ := h source span List.mem_cons_self
      rw [outcome_importModule, outcome_importModule]
      dsimp only
      rw [h₁, h₂]
      dsimp only [Except.map, bind, Except.bind]
      rw [joinWith_spliced_script htidy, joinWith_spliced_script htidy]

/-- What is imported has a text, if there are chunks. -/
theorem module_of_chunks {w : Setting} {stmts : List Stmt} {n : Nesting} {texts : List String}
    (h : outcome (chunks w stmts) n = .ok texts) {source : String} {span : Span}
    (hmem : .importModule source span ∈ stmts) : ∃ text, w.modules source = .ok text := by
  induction stmts generalizing texts with
  | nil => cases hmem
  | cons s ss ih =>
    rw [outcome_chunks_cons] at h
    obtain ⟨lines, hlines, hbind⟩ := bind_eq_ok_iff.1 h
    obtain ⟨rest, hrest, -⟩ := bind_eq_ok_iff.1 hbind
    rcases List.mem_cons.1 hmem with rfl | hmem
    · rw [outcome_importModule] at hlines
      obtain ⟨text, htext, -⟩ := map_eq_ok_iff.1 hlines
      exact ⟨text, htext⟩
    · exact ih hrest hmem

/-- Imports at the outermost level are among the statements. -/
theorem exists_importModule {stmts : List Stmt} (houter : ∀ s ∈ stmts, s.innerImports = [])
    {source : String} (h : source ∈ importsAll stmts) :
    ∃ span, .importModule source span ∈ stmts := by
  induction stmts with
  | nil => cases h
  | cons s ss ih =>
    rw [List.forall_mem_cons] at houter
    rw [importsAll, List.mem_append] at h
    rcases h with h | h
    · obtain hnone | ⟨source', span, rfl⟩ := imports_eq_nil_or houter.1
      · rw [hnone] at h
        cases h
      · rw [imports, List.mem_singleton] at h
        exact ⟨span, h ▸ List.mem_cons_self⟩
    · obtain ⟨span, hmem⟩ := ih houter.2 h
      exact ⟨span, List.mem_cons_of_mem s hmem⟩

end Stmt

/-! ## Compiling one file -/

/-- The setting that a file is compiled in on its own. -/
def FileTree.fileSetting (t : FileTree) (options : Options) (path : Path) (program : Program) :
    Setting :=
  { options
    modules := fetched (program.imports.map fun s =>
      (s, t.moduleText {} (path.parent.getD ⟨"."⟩) (some path) s)) }

/-- **Compiling a file** leaves the tree alone, and gives the script of the
program that the file spells. -/
theorem yields_compileFile_iff {t t' : FileTree} {path : Path} {text script : String}
    {program : Program} {options : Options} {executable : Bool}
    (hkind : t.kind? path = some .file) (htext : t.readText path = .ok text)
    (hprogram : Program.parse text = .ok program) :
    Yields (compileFile path { options, executable }) t script t'
      ↔ program.script (t.fileSetting options path program) = .ok script ∧ t = t' := by
  have hsees : Reads (FileStore.kind? path) (FileTree.kind? · path) := fun _ => rfl
  have hread : Reads (FileStore.readText path) (FileTree.readText · path) := fun _ => rfl
  have hsetting := reads_settingFor
    (reads_moduleText {} (path.parent.getD ⟨"."⟩) (some path)) options program
  unfold compileFile compileFileWith readSource
  constructor
  · intro h
    obtain ⟨kind, t₁, hlook, h⟩ := yields_bind_iff.1 h
    obtain ⟨rfl, rfl⟩ := (yields_lift_iff hsees).1 hlook
    rw [hkind] at h
    obtain ⟨source, t₁, hsource, h⟩ := yields_bind_iff.1 h
    obtain ⟨text', t₂, hrun, hpure⟩ := yields_bind_iff.1 hsource
    obtain ⟨hfound, rfl⟩ := (yields_orFail_iff hread).1 hrun
    obtain ⟨rfl, rfl⟩ := yields_pure_iff.1 hpure
    rw [htext] at hfound
    cases hfound
    obtain ⟨program', t₂, hparse, h⟩ := yields_bind_iff.1 h
    obtain ⟨hparsed, rfl⟩ := yields_inSource_iff.1 hparse
    rw [hprogram] at hparsed
    cases hparsed
    obtain ⟨w, t₂, hw, h⟩ := yields_bind_iff.1 h
    obtain ⟨rfl, rfl⟩ := (yields_lift_iff hsetting).1 hw
    obtain ⟨script', t₂, hrun, h⟩ := yields_bind_iff.1 h
    obtain ⟨hscript, rfl⟩ := yields_inSource_iff.1 hrun
    obtain ⟨rfl, rfl⟩ := yields_pure_iff.1 h
    exact ⟨hscript, rfl⟩
  · rintro ⟨hscript, rfl⟩
    refine yields_bind_iff.2 ⟨_, t, (yields_lift_iff hsees).2 ⟨rfl, rfl⟩, ?_⟩
    rw [hkind]
    refine yields_bind_iff.2 ⟨⟨path.text, text⟩, t, ?_, ?_⟩
    · exact yields_bind_iff.2 ⟨text, t, (yields_orFail_iff hread).2 ⟨htext, rfl⟩,
        yields_pure_iff.2 ⟨rfl, rfl⟩⟩
    · refine yields_bind_iff.2 ⟨program, t, yields_inSource_iff.2 ⟨hprogram, rfl⟩, ?_⟩
      refine yields_bind_iff.2 ⟨_, t, (yields_lift_iff hsetting).2 ⟨rfl, rfl⟩, ?_⟩
      exact yields_bind_iff.2 ⟨script, t, yields_inSource_iff.2 ⟨hscript, rfl⟩,
        yields_pure_iff.2 ⟨rfl, rfl⟩⟩

/-! ## What a build leaves alone -/

/-- The name of a script has no extension of a source. -/
theorem extension_scriptName (name : List Char) :
    (Path.splitExtension (scriptName name)).2 ≠ some ['j', 's']
      ∧ (Path.splitExtension (scriptName name)).2 ≠ some ['m', 'j', 's'] := by
  have hsplit : Path.splitExtension (scriptName name) = _ :=
    Path.splitExtension_append (Path.splitExtension name).1 (by decide)
  rw [hsplit]
  split
  · exact ⟨nofun, nofun⟩
  · simp

/-- **A script is never written over a source.** -/
theorem SourceFile.FoundIn.place_ne_scriptPlace {t : FileTree} (ht : t.IsFileSystem)
    {f g : SourceFile} (hf : f.FoundIn t) (hg : g.FoundIn t) :
    f.path.place ≠ scriptPlace g.path.place := by
  intro hplace
  have hne : g.path.place ≠ [] := fun hnil => by cases hnil ▸ hg.kindAt
  obtain ⟨directory, name, hname⟩ := (List.eq_nil_or_concat' g.path.place).resolve_left hne
  rw [hname, scriptPlace_concat] at hplace
  have hextension := extension_scriptName name.toList
  exact (hf.extension ht hplace).elim hextension.1 hextension.2

namespace Project

variable {project : Project} {t : FileTree} {src : Path} {root : List String}

/-- **A build writes scripts, and nothing else.** -/
theorem FoundBelow.writtenAt (h : project.FoundBelow t src root) (ht : t.IsFileSystem) {r : Request}
    (hmode : r.mode = .emit) {files : List SourceFile} (hknown : ∀ f ∈ files, f ∈ project.files)
    {texts : List (Path × String)} {t₁ t' : FileTree} (hwithin : t.Within t₁)
    {modules : List CompiledModule}
    (hcompile : Yields (compileAll project.root src r texts files) t₁ modules t') :
    t₁.WrittenAt t' (files.map fun f => scriptPlace f.path.place) := by
  induction files generalizing texts t₁ modules with
  | nil =>
    obtain ⟨-, rfl⟩ := yields_pure_iff.1 hcompile
    exact .refl t₁
  | cons f files ih =>
    rw [List.forall_mem_cons] at hknown
    obtain ⟨chunks, t₂, rest, -, hgrown, hscript, hrest, rfl⟩ := yields_compileAll_cons hcompile
    have hleads := (h.leadsTo_scriptPath ht hknown.1).mono hwithin
    exact (hleads.yields_writeScript (hscript hmode)).1.trans
      (ih hknown.2 (hwithin.trans hgrown) hrest)

/-! ## Scripts that can be compiled again -/

/-- **A source whose script is in place**: its text is at hand for the
build, and the same chunks stand in the script beside it. -/
def Placed (project : Project) (t t₁ : FileTree) (options : Options) (texts : List (Path × String))
    (file : SourceFile) : Prop :=
  ∃ chunks, project.Stands t.sourceOf? options file.path file.program.body chunks
    ∧ (∃ options', texts.find? (·.1 = file.path) = some (file.path, script options' chunks))
    ∧ t₁.HasText (scriptPlace file.path.place) (script options chunks)

/-- **A script that can be compiled again**: it is beside its source, and is
what comes of the source wherever the scripts beside the imported sources
are the modules. -/
def Recompiles (project : Project) (t t' : FileTree) (options : Options) (m : CompiledModule) :
    Prop :=
  ∃ f ∈ project.files, f.path = m.source ∧ t.LeadsTo m.output (scriptPlace f.path.place)
    ∧ t'.HasText (scriptPlace f.path.place) m.text
    ∧ ∀ modules, (∀ s ∈ f.program.imports, ∀ g ∈ project.files,
        t.sourceOf? f.path s = some g.path →
          ∀ text, t'.HasText (scriptPlace g.path.place) text → modules s = .ok text) →
      f.program.script { options, modules } = .ok m.text

theorem Placed.built {t₁ : FileTree} {options : Options} {texts : List (Path × String)}
    {f : SourceFile} (h : project.Placed t t₁ options texts f) :
    project.Built t options texts f := by
  obtain ⟨chunks, hstands, hfind, -⟩ := h
  exact ⟨chunks, hstands, hfind⟩

section Step

variable (hread : project.ReadFrom t) {done files : List SourceFile} {f : SourceFile}
  (hknown : ∀ g ∈ done ++ f :: files, g ∈ project.files)
  (horder : project.graph.Scheduled ((done ++ f :: files).map (·.path)))
include hread hknown horder

/-- A source is compiled to the same chunks, be its modules the texts at
hand or the scripts in place. -/
theorem chunks_eq_of_placed (hself : project.SelfContained t) {root : Path} {options : Options}
    {texts : List (Path × String)} {t₁ : FileTree} (hwithin : t.Within t₁)
    (hdone : ∀ g ∈ done, project.Placed t t₁ options texts g)
    {modules : String → Except Fault String}
    (hmodules : ∀ s ∈ f.program.imports, ∀ g ∈ done, t.sourceOf? f.path s = some g.path →
      ∀ text, t₁.HasText (scriptPlace g.path.place) text → modules s = .ok text) :
    f.program.chunks { options, modules }
      = f.program.chunks (t₁.buildSetting root texts options f) := by
  have hf : f ∈ project.files := hknown f (List.mem_append_right _ List.mem_cons_self)
  refine Stmt.chunks_congr (hself.outer f hf) (fun source span hmem => ?_) {}
  have hsource := Stmt.mem_importsAll hmem
  obtain ⟨g, hg, hleads⟩ := hself.leads f hf source hsource
  have hg := mem_done_of_leads hread hknown horder hg hmem hleads
  obtain ⟨chunks, hstands, ⟨options', hfind⟩, htext⟩ := hdone g hg
  have hbuilt : (t₁.buildSetting root texts options f).modules source = _ :=
    buildSetting_modules hwithin hsource hleads hfind
  exact ⟨chunks, hstands.tidy, ⟨options, hmodules source hsource g hg hleads _ htext⟩,
    options', hbuilt⟩

end Step

/-- Sources that are told apart by their paths have scripts of their
own. -/
theorem scriptPlace_not_mem
    (hapart : ∀ f ∈ project.files, ∀ g ∈ project.files,
      scriptPlace f.path.place = scriptPlace g.path.place → f = g)
    {before after : List SourceFile} (hknown : ∀ g ∈ before ++ after, g ∈ project.files)
    (hnodup : ((before ++ after).map (·.path)).Nodup) {g : SourceFile} (hg : g ∈ before) :
    scriptPlace g.path.place ∉ after.map fun f => scriptPlace f.path.place := by
  intro hmem
  obtain ⟨f, hf, hplace⟩ := List.mem_map.1 hmem
  obtain rfl := hapart f (hknown f (List.mem_append_right _ hf)) g
    (hknown g (List.mem_append_left _ hg)) hplace
  rw [List.map_append] at hnodup
  exact (List.nodup_append.1 hnodup).2.2 _ (List.mem_map_of_mem hg) _ (List.mem_map_of_mem hf) rfl

section Compile

variable (h : project.FoundBelow t src root) (ht : t.IsFileSystem) (hread : project.ReadFrom t)
  (hself : project.SelfContained t)
  (hapart : ∀ f ∈ project.files, ∀ g ∈ project.files,
    scriptPlace f.path.place = scriptPlace g.path.place → f = g)
  {r : Request} (hmode : r.mode = .emit)
include h ht hread hself hapart hmode

/-- **What a build writes can be compiled again**, all along the order. The
sources before have their scripts in place, and no script is written
twice. -/
theorem compileAll_recompiles {done files : List SourceFile} {texts : List (Path × String)}
    {t₁ t' : FileTree} {modules : List CompiledModule} (hwithin : t.Within t₁)
    (hknown : ∀ f ∈ done ++ files, f ∈ project.files)
    (horder : project.graph.Scheduled ((done ++ files).map (·.path)))
    (hdone : ∀ f ∈ done, project.Placed t t₁ r.options texts f)
    (hcompile : Yields (compileAll project.root src r texts files) t₁ modules t') :
    ∀ m ∈ modules, project.Recompiles t t' r.options m := by
  induction files generalizing done texts t₁ modules with
  | nil =>
    obtain ⟨rfl, rfl⟩ := yields_pure_iff.1 hcompile
    exact nofun
  | cons f files ih =>
    obtain ⟨chunks, t₂, rest, hchunks, hgrown, hscript, hrest, rfl⟩ :=
      yields_compileAll_cons hcompile
    have hf : f ∈ project.files := hknown f (List.mem_append_right _ List.mem_cons_self)
    have hstands := stands_of_built hread hknown horder hself hwithin
      (fun g hg => (hdone g hg).built) hchunks
    have hleads := h.leadsTo_scriptPath ht hf
    obtain ⟨hwritten, htext⟩ := (hleads.mono hwithin).yields_writeScript (hscript hmode)
    -- the script of `f` joins those in place, at a place of its own
    have hdone' : ∀ g ∈ done ++ [f], project.Placed t t₂ r.options
        ((f.path, script { r.options with shebang := false } chunks) :: texts) g := by
      refine List.forall_mem_append.2 ⟨fun g hg => ?_, List.forall_mem_singleton.2 ?_⟩
      · obtain ⟨chunks', hstands', ⟨options', hfind⟩, htext'⟩ := hdone g hg
        have hne := List.ne_of_not_mem_cons (scriptPlace_not_mem hapart hknown horder.nodup hg)
        exact ⟨chunks', hstands', ⟨options', (find?_cons_of_mem_done horder hg _ _).trans hfind⟩,
          hwritten.hasText (List.mem_singleton.not.2 hne) htext'⟩
      · exact ⟨chunks, hstands, ⟨_, List.find?_cons_of_pos (decide_eq_true rfl)⟩, htext⟩
    -- what is written from here on leaves the scripts of `f` and its imports alone
    have hhead : project.Recompiles t t' r.options
        ⟨⟨f.path, scriptPath project.root src f.path⟩, script r.options chunks⟩ := by
      have hlater := h.writtenAt ht hmode (fun g hg => hknown g (List.mem_append_right _ hg))
        hwithin hcompile
      refine ⟨f, hf, rfl, ?_, ?_, fun modules hmodules => ?_⟩
      · dsimp only
        exact hleads
      · rw [List.append_cons] at hknown horder
        have hrest' := h.writtenAt ht hmode (fun g hg => hknown g (List.mem_append_right _ hg))
          (hwithin.trans hgrown) hrest
        exact hrest'.hasText (scriptPlace_not_mem hapart hknown horder.nodup (by simp)) htext
      · unfold Program.script
        rw [chunks_eq_of_placed hread hknown horder hself hwithin hdone, hchunks]
        · rfl
        · intro s hs g hg hleads text htext
          exact hmodules s hs g (hknown g (List.mem_append_left _ hg)) hleads text
            (hlater.hasText (scriptPlace_not_mem hapart hknown horder.nodup hg) htext)
    rw [List.append_cons] at hknown horder
    exact List.forall_mem_cons.2 ⟨hhead, ih (hwithin.trans hgrown) hknown horder hdone' hrest⟩

end Compile

/-- **A build leaves sources alone.** A path that leads to a source behind it
led there before, and to the same text. -/
theorem FoundBelow.source_kept (h : project.FoundBelow t src root) (ht : t.IsFileSystem)
    {t' : FileTree} {files : List SourceFile} (hknown : ∀ f ∈ files, f ∈ project.files)
    (hwritten : t.WrittenAt t' (files.map fun f => scriptPlace f.path.place)) {f : SourceFile}
    (hf : f.FoundIn t) {path : Path} (hpath : t'.canonical path = .ok f.path) :
    t.canonical path = .ok f.path ∧ t'.kind? path = some .file
      ∧ t'.readText path = .ok f.source.text := by
  obtain ⟨place, kind, hlocate, hcanonical⟩ := FileTree.locate_of_canonical hpath
  have hkind := (reach_trail_of_locate hlocate).2
  -- canonical paths tell places apart only if the names there are proper
  have hnames : ∀ name ∈ place, IsEntryName name := by
    by_cases hmem : place ∈ files.map fun f => scriptPlace f.path.place
    · obtain ⟨g, hg, rfl⟩ := List.mem_map.1 hmem
      exact (h.leadsTo_scriptPath ht (hknown g hg)).names ht
    · rw [hwritten.kindAt?_eq hmem] at hkind
      exact ht.names_of_kindAt? hkind
  have hplace : f.path.place = place := by
    rw [hcanonical, place_pathOf hnames]
  subst hplace
  obtain rfl := Option.some.inj ((hwritten.within.kindAt _ _ hf.kindAt).symm.trans hkind)
  refine ⟨?_, ?_, ?_⟩
  · unfold FileTree.canonical
    rw [hwritten.locate_eq hlocate hf.kindAt]
    exact congrArg Except.ok hf.path.symm
  · unfold kind?
    rw [hlocate]
  · have hapart : f.path.place ∉ files.map fun g => scriptPlace g.path.place := by
      intro hmem
      obtain ⟨g, hg, hplace⟩ := List.mem_map.1 hmem
      exact hf.place_ne_scriptPlace ht (h.files g (hknown g hg)).1 hplace.symm
    rw [readText_congr (hf.locate_eq ht) hlocate (hwritten.fileAt _ hapart), hf.text]

/-- Sources are compiled in an order in which imports come first. -/
theorem ReadFrom.exists_schedule (h : project.ReadFrom t) {out : Path} {r : Request} {t' : FileTree}
    {modules : List CompiledModule}
    (hcompile : Yields (compileProject project out r) t modules t') :
    ∃ files, (∀ f ∈ files, f ∈ project.files) ∧ project.graph.Scheduled (files.map (·.path))
      ∧ Yields (compileAll project.root out r [] files) t modules t' := by
  unfold compileProject at hcompile
  cases horder : project.graph.order with
  | error fault =>
    rw [horder] at hcompile
    cases hcompile
  | ok order =>
    rw [horder] at hcompile
    obtain ⟨hscheduled, -⟩ := h.isMap.scheduled_of_order horder
    refine ⟨project.filesAt order, fun f hf => mem_of_mem_filesAt hf, ?_, hcompile⟩
    rwa [map_path_filesAt hscheduled.subset_modules]

end Project

/-! ## File by file -/

theorem FileTree.LeadsTo.moduleText_eq {t : FileTree} {base : Path} {importer : Option Path}
    {specifier : String} {place : List String}
    (h : t.LeadsTo (Layout.resolve {} base importer specifier) place) {text : String}
    (htext : t.HasText place text) : t.moduleText {} base importer specifier = .ok text := by
  have hlocate := h.locate_eq htext
  have hkind : t.kind? (Layout.resolve {} base importer specifier) = some .file := by
    unfold kind?
    rw [hlocate]
  unfold FileTree.moduleText
  dsimp only
  rw [if_pos hkind, htext.readText_eq hlocate]

theorem FileTree.kind?_of_moduleText {t : FileTree} {base : Path} {importer : Option Path}
    {specifier text : String} (h : t.moduleText {} base importer specifier = .ok text) :
    t.kind? (Layout.resolve {} base importer specifier) = some .file := by
  unfold FileTree.moduleText at h
  dsimp only at h
  split at h
  · next hkind => exact hkind
  · cases h

section Recompile

variable {project : Project} {t t' : FileTree} {src : Path} {root : List String}
  (h : project.FoundBelow t src root) (ht : t.IsFileSystem) (hself : project.SelfContained t)
  (hplain : ∀ f ∈ project.files, ∀ s ∈ f.program.imports,
    .normal "javascript" ∉ (⟨s⟩ : Path).components)
  (hwithin : t.Within t') {f : SourceFile} (hf : f ∈ project.files) {path : Path}
  (hpath : t.canonical path = .ok f.path)
include h ht hplain hwithin hf hpath

/-- A source that is compiled on its own finds its modules, if the specifiers
take a step. -/
theorem fileSetting_modules (options : Options)
    (hsteps : ∀ s ∈ f.program.imports, (⟨s⟩ : Path).TakesStep) :
    ∀ s ∈ f.program.imports, ∀ g ∈ project.files, t.sourceOf? f.path s = some g.path →
      ∀ text, t'.HasText (scriptPlace g.path.place) text →
        (t'.fileSetting options path f.program).modules s = .ok text := by
  intro s hs g hg hleads text htext
  have hresolve := leadsTo_resolve ht (h.files f hf).1 (h.files g hg).1 hleads (hplain f hf s hs)
    hpath (path.parent.getD ⟨"."⟩) (hsteps s hs)
  unfold FileTree.fileSetting
  dsimp only
  rw [fetched_map hs]
  exact (hresolve.mono hwithin).moduleText_eq htext

include hself in
/-- A source can be compiled on its own only if its specifiers take a
step. -/
theorem takesStep_of_script {options : Options} {text : String}
    (hscript : f.program.script (t'.fileSetting options path f.program) = .ok text) :
    ∀ s ∈ f.program.imports, (⟨s⟩ : Path).TakesStep := by
  intro s hs
  by_contra hstep
  obtain ⟨chunks, hchunks, -⟩ := map_eq_ok_iff.1 hscript
  obtain ⟨span, hmem⟩ := Stmt.exists_importModule (hself.outer f hf) hs
  obtain ⟨found, hfound⟩ := Stmt.module_of_chunks hchunks hmem
  unfold FileTree.fileSetting at hfound
  dsimp only at hfound
  rw [fetched_map hs] at hfound
  exact kind?_resolve_ne_file ht (h.files f hf).1 (hplain f hf s hs) hpath _ hstep hwithin
    (kind?_of_moduleText hfound)

end Recompile

/-- **A build and file by file.** Let the sources of a directory be built
beside themselves, with a script for each of them. Then the scripts are
there, and a source that is compiled on its own, by whatever path, comes to
its script exactly if the specifiers of its imports take a step. -/
theorem compileFile_agrees_iff (t t' : FileTree) (src : Path) (r : Request) (project : Project)
    (built : List BuiltModule) (ht : t.IsFileSystem) (hread : Yields (readProject src) t project t)
    (hself : project.SelfContained t)
    (hplain : ∀ f ∈ project.files, ∀ s ∈ f.program.imports,
      .normal "javascript" ∉ (⟨s⟩ : Path).components)
    (hapart : (project.files.map fun f => scriptPath project.root src f.path).Nodup)
    (hmode : r.mode = .emit) (hbuild : Yields (buildProject src src r) t built t') :
    ∃ modules, Yields (compileProject project src r) t modules t'
      ∧ built = modules.map (·.toBuiltModule)
      ∧ ∀ m ∈ modules, t'.readText m.output = .ok m.text
        ∧ ∃ f ∈ project.files, f.path = m.source
          ∧ ∀ path, t'.canonical path = .ok m.source → ∀ executable,
            Yields (compileFile path { options := r.options, executable }) t' m.text t'
              ↔ ∀ s ∈ f.program.imports, (⟨s⟩ : Path).TakesStep := by
  have hfrom := readFrom_of_yields ht.toWellFormed hread
  obtain ⟨root, hbelow⟩ := exists_foundBelow ht hread
  unfold buildProject at hbuild
  obtain ⟨project', t₁, hread', hrest⟩ := yields_bind_iff.1 hbuild
  obtain ⟨rfl, rfl⟩ := hread.unique hread'
  obtain ⟨modules, t₂, hcompile, hpure⟩ := yields_bind_iff.1 hrest
  obtain ⟨rfl, rfl⟩ := yields_pure_iff.1 hpure
  refine ⟨modules, hcompile, rfl, fun m hm => ?_⟩
  obtain ⟨files, hknown, horder, hcompile⟩ := hfrom.exists_schedule hcompile
  have hplaces : ∀ f ∈ project'.files, ∀ g ∈ project'.files,
      scriptPlace f.path.place = scriptPlace g.path.place → f = g := fun f hf g hg hplace =>
    List.inj_on_of_nodup_map hapart hf hg (hbelow.scriptPath_congr ht hf hg hplace)
  have hwritten := hbelow.writtenAt ht hmode hknown (.refl t₁) hcompile
  obtain ⟨f, hf, hsource, hleads, htext, hscript⟩ :=
    Project.compileAll_recompiles hbelow ht hfrom hself hplaces hmode (.refl t₁)
      (show ∀ f ∈ [] ++ files, f ∈ project'.files from hknown) horder (List.forall_mem_nil _)
      hcompile m hm
  refine ⟨htext.readText_eq ((hleads.mono hwritten.within).locate_eq htext), f, hf, hsource,
    fun path hpath executable => ?_⟩
  rw [← hsource] at hpath
  have hfound := (hbelow.files f hf).1
  obtain ⟨hcanonical, hkind, hread⟩ := hbelow.source_kept ht hknown hwritten hfound hpath
  rw [yields_compileFile_iff hkind hread hfound.program]
  constructor
  · rintro ⟨hscript, -⟩
    exact takesStep_of_script hbelow ht hself hplain hwritten.within hf hcanonical hscript
  · intro hsteps
    exact ⟨hscript _ (fileSetting_modules hbelow ht hplain hwritten.within hf hcanonical r.options
      hsteps), rfl⟩

/-- Sources below a directory, with what they spell. One of them imports the
source that its own directory is named like, by a specifier that takes no
step. -/
def namesakeSources : List (List String × String × List Stmt) :=
  [(["src", "lib", "a.js"], "import '.';", [.importModule "." ⟨0, 11⟩]),
    (["src", "lib.js"], "f();", [.expression (.call (.identifier "f" ⟨0, 1⟩) [] ⟨0, 3⟩) ⟨0, 4⟩]),
    (["src", "main.js"], "import './lib';", [.importModule "./lib" ⟨0, 15⟩])]

/-- A tree with these sources. -/
def namesakeTree : FileTree :=
  { files := namesakeSources.map fun source => (source.1, ⟨source.2.1.toUTF8, false⟩)
    directories := [["src"], ["src", "lib"]] }

/-- What a source is read as. -/
def namesakeFile (source : List String × String × List Stmt) : SourceFile :=
  let path := pathOf source.1
  let program : Program := ⟨source.2.2, ⟨0, source.2.1.utf8ByteSize⟩⟩
  ⟨path, ⟨path.text, source.2.1⟩, program,
    program.outerImports.filterMap (namesakeTree.sourceOf? path)⟩

def namesakeProject : Project := ⟨⟨"/src"⟩, namesakeSources.map namesakeFile⟩

/-- The tree meets what is asked for. -/
theorem namesakeTree_read :
    namesakeTree.IsFileSystem
      ∧ Yields (readProject ⟨"src"⟩) namesakeTree namesakeProject namesakeTree
      ∧ namesakeProject.SelfContained namesakeTree
      ∧ (∀ f ∈ namesakeProject.files, ∀ s ∈ f.program.imports,
        .normal "javascript" ∉ (⟨s⟩ : Path).components)
      ∧ (namesakeProject.files.map fun f =>
        scriptPath namesakeProject.root ⟨"src"⟩ f.path).Nodup := by
  have hfiles : ∀ source ∈ namesakeSources,
      Yields (readSourceFile (pathOf source.1)) namesakeTree (namesakeFile source)
        namesakeTree := by
    have htexts : ∀ source ∈ namesakeSources,
        namesakeTree.readText (pathOf source.1) = .ok source.2.1 := by decide +kernel
    have hparse : ∀ source ∈ namesakeSources,
        Program.parse source.2.1 = .ok ⟨source.2.2, ⟨0, source.2.1.utf8ByteSize⟩⟩ := by
      unfold namesakeSources
      simp only [List.forall_mem_cons]
      exact ⟨rfl, rfl, rfl, nofun⟩
    intro source hsource
    exact yields_readSourceFile_iff.2
      ⟨_, _, htexts source hsource, hparse source hsource, rfl, rfl⟩
  refine ⟨by decide +kernel, yields_readProject_iff.2 ⟨by decide +kernel, ?_⟩, ?_,
    by decide +kernel, by decide +kernel⟩
  · have hsorted :
        ((namesakeTree.filesUnder namesakeProject.root).filter isSourcePath).mergeSort Path.le
          = namesakeSources.map fun source => pathOf source.1 := by
      rw [List.mergeSort_of_pairwise (by decide +kernel)]
      decide +kernel
    rw [hsorted]
    exact yields_mapM_map hfiles
  · have hall : ∀ f ∈ namesakeProject.files, (∀ name ∈ f.program.names, isName name = true)
        ∧ (∀ s ∈ f.program.body, s.innerImports = [])
        ∧ ∀ source ∈ f.program.imports, ∃ g ∈ namesakeProject.files,
          namesakeTree.sourceOf? f.path source = some g.path := by decide +kernel
    exact ⟨fun f hf => (hall f hf).1, fun f hf => (hall f hf).2.1, fun f hf => (hall f hf).2.2⟩

/-- The order of a build: each source behind what it imports. -/
def namesakeOrder : List Path := [⟨"/src/lib.js"⟩, ⟨"/src/lib/a.js"⟩, ⟨"/src/main.js"⟩]

/-- A build beside the sources, once their order is known. -/
def namesakeBuild : ExceptT Failure (StateM FileTree) (List CompiledModule) :=
  compileAll namesakeProject.root ⟨"src"⟩ {} [] (namesakeProject.filesAt namesakeOrder)

theorem yields_namesakeBuild :
    ∃ modules t', Yields namesakeBuild namesakeTree modules t'
      ∧ Yields (buildProject ⟨"src"⟩ ⟨"src"⟩ {}) namesakeTree
        (modules.map (·.toBuiltModule)) t' := by
  have horder : namesakeProject.graph.order = .ok namesakeOrder := by
    show (namesakeProject.graph.modules.mergeSort Path.le).foldlM
      (namesakeProject.graph.visit []) [] = _
    rw [List.mergeSort_of_pairwise (by decide +kernel)]
    decide +kernel
  obtain ⟨modules, t', hcompile⟩ : ∃ modules t', Yields namesakeBuild namesakeTree modules t' :=
    exists_yields (by decide +kernel)
  refine ⟨modules, t', hcompile, yields_bind_iff.2 ⟨_, _, namesakeTree_read.2.1,
    yields_bind_iff.2 ⟨modules, t', ?_, yields_pure_iff.2 ⟨rfl, rfl⟩⟩⟩⟩
  unfold compileProject
  rw [horder]
  exact hcompile

theorem namesakeTree_recompiled :
    namesakeTree.IsFileSystem
      ∧ Yields (readProject ⟨"src"⟩) namesakeTree namesakeProject namesakeTree
      ∧ namesakeProject.SelfContained namesakeTree
      ∧ (∀ f ∈ namesakeProject.files, ∀ s ∈ f.program.imports,
        .normal "javascript" ∉ (⟨s⟩ : Path).components)
      ∧ (namesakeProject.files.map fun f =>
        scriptPath namesakeProject.root ⟨"src"⟩ f.path).Nodup
      ∧ ∃ built t', Yields (buildProject ⟨"src"⟩ ⟨"src"⟩ {}) namesakeTree built t'
        ∧ ∃ modules, Yields (compileProject namesakeProject ⟨"src"⟩ {}) namesakeTree modules t'
          ∧ built = modules.map (·.toBuiltModule)
          ∧ ∀ m ∈ modules, t'.readText m.output = .ok m.text
            ∧ ∃ f ∈ namesakeProject.files, f.path = m.source
              ∧ ∀ path, t'.canonical path = .ok m.source → ∀ executable,
                Yields (compileFile path { executable }) t' m.text t'
                  ↔ ∀ s ∈ f.program.imports, (⟨s⟩ : Path).TakesStep := by
  obtain ⟨htree, hread, hself, hplain, hapart⟩ := namesakeTree_read
  obtain ⟨modules, t', -, hbuild⟩ := yields_namesakeBuild
  exact ⟨htree, hread, hself, hplain, hapart, _, t', hbuild,
    compileFile_agrees_iff namesakeTree t' ⟨"src"⟩ {} namesakeProject _ htree hread hself hplain
      hapart rfl hbuild⟩

/-- **A source that is built, but cannot be compiled on its own.** -/
theorem namesake_not_recompiled :
    namesakeTree.IsFileSystem
      ∧ Yields (readProject ⟨"src"⟩) namesakeTree namesakeProject namesakeTree
      ∧ namesakeProject.SelfContained namesakeTree
      ∧ (∀ f ∈ namesakeProject.files, ∀ s ∈ f.program.imports,
        .normal "javascript" ∉ (⟨s⟩ : Path).components)
      ∧ (namesakeProject.files.map fun f =>
        scriptPath namesakeProject.root ⟨"src"⟩ f.path).Nodup
      ∧ ∃ built t', Yields (buildProject ⟨"src"⟩ ⟨"src"⟩ {}) namesakeTree built t'
        ∧ ∃ m ∈ built, m.source = ⟨"/src/lib/a.js"⟩
          ∧ ∀ script t'', ¬Yields (compileFile m.source {}) t' script t'' := by
  obtain ⟨htree, hread, hself, hplain, hapart⟩ := namesakeTree_read
  obtain ⟨modules, t', hcompile, hbuild⟩ := yields_namesakeBuild
  have hsources : (StateT.run namesakeBuild.run namesakeTree).1.toOption.map (List.map (·.source))
      = some namesakeOrder := by decide +kernel
  have hfails : (StateT.run (namesakeBuild >>= fun _ => compileFile ⟨"/src/lib/a.js"⟩ {}).run
      namesakeTree).1.isOk = false := by decide +kernel
  rw [hcompile] at hsources
  obtain ⟨m, hm, hsource⟩ : ∃ m ∈ modules, m.source = ⟨"/src/lib/a.js"⟩ := by
    have hmem : ⟨"/src/lib/a.js"⟩ ∈ modules.map (·.source) := by
      rw [Option.some.inj hsources]
      decide
    exact List.mem_map.1 hmem
  refine ⟨htree, hread, hself, hplain, hapart, _, t', hbuild, m.toBuiltModule,
    List.mem_map_of_mem hm, hsource, fun script t'' hfile => ?_⟩
  rw [hsource] at hfile
  have hboth : Yields (namesakeBuild >>= fun _ => compileFile ⟨"/src/lib/a.js"⟩ {}) namesakeTree
      script t'' := yields_bind_iff.2 ⟨modules, t', hcompile, hfile⟩
  rw [hboth] at hfails
  cases hfails

end ScriptToShell
