import ScriptToShell.Proofs.ProjectBuild
import ScriptToShell.Proofs.VolumeGrowth

/-!
# What a build leaves behind

A build writes its scripts one by one, and it may fail between any two of
them. This module shows what is then found in the volume
(`buildProject_leaves_scripts_before`). Nothing has changed if scripts are
not asked for, and nothing has changed if the sources cannot be listed, read or
put in order. If a source has no script, then those before it have been
written, and no other file has been touched.

A script is written to the file that its path leads to. The path may lead over
links, and the file may have other names, so two scripts at different paths may
be written to one file. Then the later one has overwritten the earlier one,
and all that can be said of a file is that it holds the text of the last script
whose path leads to it (`Volume.WrittenBy`). The text of a path is not enough
to tell: `linkedSources_share_script` is a build whose two scripts have
different paths, and both paths lead to the text of the second.
-/

namespace ScriptToShell

open Volume Shell

/-! ## Reading -/

instance : FileStore.Steady Volume where
  kind? _ _ := rfl
  readText _ _ := rfl
  canonical _ _ := rfl
  filesUnder _ _ := rfl

namespace Volume

/-- **What keeps a directory from being read**, with the failure that comes
of it. -/
inductive Unreadable (v : Volume) (src : Path) : Failure → Prop where
  /-- There is no directory. -/
  | directory {reason : Refusal} : v.canonical src = .error reason →
    v.Unreadable src (.unreadableDirectory src reason)
  /-- A directory cannot be listed. -/
  | listing {root : Path} {reason : Refusal} : v.canonical src = .ok root →
    v.filesUnder root = .error reason → v.Unreadable src (.unlisted root reason)
  /-- A source has no text. -/
  | text {root path : Path} {paths : List Path} {reason : Refusal} :
    v.canonical src = .ok root → v.filesUnder root = .ok paths → path ∈ paths →
    isSourcePath path = true → v.readText path = .error reason →
    v.Unreadable src (.unreadableFile path reason)
  /-- The text of a source is no program. -/
  | program {root path : Path} {paths : List Path} {text : String} {fault : Fault} :
    v.canonical src = .ok root → v.filesUnder root = .ok paths → path ∈ paths →
    isSourcePath path = true → v.readText path = .ok text → Program.parse text = .error fault →
    v.Unreadable src (.faulty fault ⟨path.text, text⟩)

variable {v v' : Volume} {src path : Path} {failure : Failure} {project : Project}

theorem reads_canonical (path : Path) :
    Reads (FileStore.canonical path) (Volume.canonical · path) := fun _ => rfl

theorem reads_filesUnder (path : Path) :
    Reads (FileStore.filesUnder path) (Volume.filesUnder · path) := fun _ => rfl

theorem reads_readText (path : Path) :
    Reads (FileStore.readText path) (Volume.readText · path) := fun _ => rfl

theorem fails_readSourceFile (h : Fails (readSourceFile path) v failure v') :
    (∃ reason, v.readText path = .error reason ∧ .unreadableFile path reason = failure)
      ∨ ∃ text fault, v.readText path = .ok text ∧ Program.parse text = .error fault
        ∧ .faulty fault ⟨path.text, text⟩ = failure := by
  unfold readSourceFile readSource at h
  obtain hsource | ⟨source, v₁, hsource, hrest⟩ := fails_bind_iff.1 h
  · obtain htext | ⟨_, _, -, hpure⟩ := fails_bind_iff.1 hsource
    · obtain ⟨reason, hrun, rfl⟩ := fails_orFail_iff.1 htext
      exact .inl ⟨reason, (Prod.mk.inj ((reads_readText path v).symm.trans hrun)).1, rfl⟩
    · exact absurd hpure (not_fails_pure _)
  · obtain ⟨text, v₂, hrun, hpure⟩ := yields_bind_iff.1 hsource
    obtain ⟨htext, rfl⟩ := (yields_orFail_iff (reads_readText path)).1 hrun
    obtain ⟨rfl, rfl⟩ := yields_pure_iff.1 hpure
    obtain hparse | ⟨_, _, -, hrest⟩ := fails_bind_iff.1 hrest
    · obtain ⟨fault, hfault, rfl, -⟩ := fails_inSource_iff.1 hparse
      exact .inr ⟨text, fault, htext, hfault, rfl⟩
    · obtain hlift | ⟨_, _, -, hpure⟩ := fails_bind_iff.1 hrest
      · exact absurd hlift (not_fails_lift _)
      · exact absurd hpure (not_fails_pure _)

/-- **A directory that is not read cannot be read.** -/
theorem unreadable_of_fails (h : Fails (readProject src) v failure v') :
    v.Unreadable src failure := by
  unfold readProject at h
  obtain hroot | ⟨root, v₁, hrun, hrest⟩ := fails_bind_iff.1 h
  · obtain ⟨reason, hrun, rfl⟩ := fails_orFail_iff.1 hroot
    exact .directory (Prod.mk.inj ((reads_canonical src v).symm.trans hrun)).1
  · obtain ⟨hroot, rfl⟩ := (yields_orFail_iff (reads_canonical src)).1 hrun
    obtain hfound | ⟨found, v₁, hfound, hrest⟩ := fails_bind_iff.1 hrest
    · obtain ⟨reason, hrun, rfl⟩ := fails_orFail_iff.1 hfound
      exact .listing hroot (Prod.mk.inj ((reads_filesUnder root v).symm.trans hrun)).1
    · obtain ⟨hunder, rfl⟩ := (yields_orFail_iff (reads_filesUnder root)).1 hfound
      obtain hfiles | ⟨_, _, -, hpure⟩ := fails_bind_iff.1 hrest
      · obtain ⟨path, hpath, hfile⟩ := exists_fails_of_mapM
          (fun _ _ _ hf => (of_yields_readSourceFile hf).1) hfiles
        obtain ⟨hpath, hsource⟩ := List.mem_filter.1 ((List.mergeSort_perm _ _).mem_iff.1 hpath)
        obtain ⟨reason, htext, rfl⟩ | ⟨text, fault, htext, hfault, rfl⟩ :=
          fails_readSourceFile hfile
        · exact .text hroot hunder hpath hsource htext
        · exact .program hroot hunder hpath hsource htext hfault
      · exact absurd hpure (not_fails_pure _)

/-- **A well-formed volume**: the names on the way to an entry are names that
entries can have, no place has two entries, and the files that names stand for
are there. -/
structure WellFormed (v : Volume) : Prop where
  /-- The names on the way to an entry are proper. -/
  names : ∀ entry ∈ v.entries, ∀ name ∈ entry.1, FileTree.IsEntryName name
  /-- Places have one entry each. -/
  distinct : (v.entries.map (·.1)).Nodup
  /-- The files are there. -/
  numbers : ∀ entry ∈ v.entries, ∀ number ∈ entry.2.number?, number < v.files.length

instance (v : Volume) : Decidable v.WellFormed :=
  decidable_of_iff ((∀ entry ∈ v.entries, ∀ name ∈ entry.1, FileTree.IsEntryName name)
    ∧ (v.entries.map (·.1)).Nodup
    ∧ ∀ entry ∈ v.entries, ∀ number ∈ entry.2.number?, number < v.files.length)
    ⟨fun h => ⟨h.1, h.2.1, h.2.2⟩, fun h => ⟨h.names, h.distinct, h.numbers⟩⟩

theorem WellFormed.numbered (hv : v.WellFormed) : v.Numbered := by
  intro place number hentry
  unfold entryAt? at hentry
  split at hentry
  · cases hentry
  · obtain ⟨found, hfound, hnumber⟩ := Option.map_eq_some_iff.1 hentry
    exact hv.numbers found (List.mem_of_find?_eq_some hfound) number (by rw [hnumber]; rfl)

/-- **In a well-formed volume, paths tell files apart.** -/
theorem WellFormed.nodup_components (hv : v.WellFormed) {paths : List Path}
    (h : v.filesUnder path = .ok paths) : (paths.map Path.components).Nodup := by
  unfold filesUnder at h
  cases hlocate : v.locate true path with
  | error refusal =>
    rw [hlocate] at h
    cases h
  | ok spot =>
    rw [hlocate] at h
    cases spot with
    | free directory name slash => cases h
    | taken place kind =>
      simp only [bind, Except.bind] at h
      split at h
      · cases h
      · cases h
        exact FileTree.nodup_components_pathOf
          (fun entry hentry => hv.names entry (List.mem_filter.1 hentry).1)
          (hv.distinct.sublist (List.filter_sublist.map _))

/-- The sources that are read have different paths. -/
theorem WellFormed.isMap_of_yields (hv : v.WellFormed)
    (h : Yields (readProject src) v project v') : project.graph.IsMap := by
  unfold readProject at h
  obtain ⟨root, v₁, hrun, h⟩ := yields_bind_iff.1 h
  obtain ⟨-, rfl⟩ := (yields_orFail_iff (reads_canonical src)).1 hrun
  obtain ⟨found, v₁, hrun, h⟩ := yields_bind_iff.1 h
  obtain ⟨hfound, rfl⟩ := (yields_orFail_iff (reads_filesUnder root)).1 hrun
  obtain ⟨files, v₁, hfiles, hpure⟩ := yields_bind_iff.1 h
  obtain ⟨rfl, rfl⟩ := yields_pure_iff.1 hpure
  obtain ⟨-, hpaths, -⟩ := yields_mapM (P := fun _ => True) (fun path f v' hf =>
    ⟨(of_yields_readSourceFile hf).1, (of_yields_readSourceFile hf).2, trivial⟩) hfiles
  exact Project.isMap_of_paths hpaths (hv.nodup_components hfound)

/-! ## Writing -/

/-- Making the file executable changes no text. -/
theorem WrittenTo.markExecutable {text : String} {place : List String} {number : Nat}
    (h : v.WrittenTo v' path text place number) :
    v.WrittenTo (v'.markExecutable path) path text place number := by
  have hmark : v'.markExecutable path = v'.modifyFile number ({ · with executable := true }) := by
    unfold Volume.markExecutable
    rw [number?_eq_some_iff.2 ⟨place, h.locate, h.entry⟩]
  obtain ⟨file, hfile, htext⟩ := h.text
  rw [hmark]
  refine ⟨(within_modifyFile _ _ _).locate_eq h.locate, h.entry,
    ⟨{ file with executable := true }, ?_, htext⟩, fun number' hne => ?_, h.entries⟩
  · unfold modifyFile
    rw [List.getElem?_modify_eq, hfile]
    rfl
  · rw [← h.files number' hne]
    exact List.getElem?_modify_ne _ _ hne.symm

theorem within_markExecutable (v : Volume) (path : Path) : v.Within (v.markExecutable path) := by
  unfold Volume.markExecutable
  split
  · exact within_modifyFile v _ _
  · exact refl_of Within v

theorem moves_within_writeScript (path : Path) (text : String) (executable : Bool) :
    Moves Within (writeScript (m := StateM Volume) path text executable).run :=
  moves_writeScript (fun _ => moves_update fun _ _ => within_makeDirectory)
    (fun _ _ => moves_update fun _ _ h => (exists_of_writeText h).1)
    (fun path v => within_markExecutable v path) path text executable

/-- **Writing a script**, with whatever directories it takes, puts its text
into the file that its path then leads to. -/
theorem exists_of_writeScript (hv : v.Numbered) {text : String} {executable : Bool}
    (h : Yields (writeScript path text executable) v () v') :
    ∃ place number, v.WrittenTo v' path text place number := by
  -- the directories come first and are no files
  obtain ⟨v₁, hrest, hmade⟩ := exists_putScript_of_yields h
  have hwithin : v.Within v₁ := hmade _ fun _ => moves_update fun _ _ => within_makeDirectory
  have hsame : v.OnlyDirectories v₁ :=
    hmade _ fun _ => moves_update fun _ _ => onlyDirectories_makeDirectory
  obtain ⟨_, v₂, hput, hmark⟩ := yields_bind_iff.1 hrest
  obtain ⟨place, number, hwritten⟩ :=
    (exists_of_writeText (eq_ok_of_run_update (yields_orFail_run_iff.1 hput))).2
      (hwithin.numbered hv)
  refine ⟨place, number, ?_⟩
  have hsince : v.WrittenTo v₂ path text place number := by
    refine ⟨hwritten.locate, hwritten.entry, hwritten.text, fun number' hne => ?_,
      fun place' hne hchanged => ?_⟩
    · rw [hwritten.files number' hne, hsame.files]
    · by_cases heq : v₂.entryAt? place' = v₁.entryAt? place'
      · rw [heq] at hchanged ⊢
        exact hsame.entries place' hchanged
      · exact hwritten.entries place' hne heq
  cases executable with
  | false =>
    obtain ⟨-, rfl⟩ := yields_pure_iff.1 hmark
    exact hsince
  | true =>
    obtain rfl : v₂.markExecutable path = v' := (Prod.mk.inj (yields_lift_run_iff.1 hmark)).2
    exact hsince.markExecutable

/-! ## What a build writes -/

/-- A path leads to a file that holds a text. -/
def Holds (v : Volume) (path : Path) (text : String) : Prop :=
  ∃ number file, v.number? path = some number ∧ v.files[number]? = some file
    ∧ file.contents = text.toUTF8

/-- **A volume that modules have been written to**: a file that has changed is
one that the path of a script leads to, and it holds the text of the last module
of which this is so. -/
structure WrittenBy (v v' : Volume) (modules : List CompiledModule) : Prop where
  /-- The path of a script leads to a file that has changed. -/
  files : ∀ number, v'.files[number]? ≠ v.files[number]? →
    ∃ m ∈ modules, v'.number? m.output = some number
  /-- The path of a script leads to a new name, unless it stands for a
  directory. -/
  entries : ∀ place, v'.entryAt? place ≠ v.entryAt? place →
    v'.entryAt? place = some .directory
      ∨ ∃ m ∈ modules, v'.locate true m.output = .ok (.taken place .file)
  /-- A script that is not overwritten has its text. -/
  texts : ∀ before m after, modules = before ++ m :: after →
    (∀ m' ∈ after, v'.number? m'.output ≠ v'.number? m.output) → v'.Holds m.output m.text

theorem writtenBy_nil (v : Volume) : v.WrittenBy v [] := by
  refine ⟨fun _ hchanged => absurd rfl hchanged, fun _ hchanged => absurd rfl hchanged,
    fun before m after hnil => ?_⟩
  exact absurd hnil.symm (List.append_ne_nil_of_right_ne_nil _ (List.cons_ne_nil _ _))

/-- A script stays as it is until one is written to the same file. -/
theorem WrittenBy.cons {v₁ : Volume} {m : CompiledModule} {rest : List CompiledModule}
    {place : List String} {number : Nat} (h : v₁.WrittenBy v' rest)
    (hwritten : v.WrittenTo v₁ m.output m.text place number) (hwithin : v₁.Within v') :
    v.WrittenBy v' (m :: rest) := by
  have hlocate := hwithin.locate_eq hwritten.locate
  have hnumber :=
    hwithin.number?_eq (number?_eq_some_iff.2 ⟨place, hwritten.locate, hwritten.entry⟩)
  refine ⟨fun number' hchanged => ?_, fun place' hchanged => ?_,
    fun before m' after hsplit hlast => ?_⟩
  · by_cases heq : number' = number
    · exact ⟨m, List.mem_cons_self, heq ▸ hnumber⟩
    · rw [← hwritten.files number' heq] at hchanged
      obtain ⟨m', hm', hleads⟩ := h.files number' hchanged
      exact ⟨m', List.mem_cons_of_mem m hm', hleads⟩
  · by_cases hplace : place' = place
    · exact .inr ⟨m, List.mem_cons_self, hplace ▸ hlocate⟩
    · by_cases heq : v'.entryAt? place' = v₁.entryAt? place'
      · rw [heq] at hchanged ⊢
        exact .inl (hwritten.entries place' hplace hchanged)
      · refine (h.entries place' heq).imp_right fun ⟨m', hm', hleads⟩ => ?_
        exact ⟨m', List.mem_cons_of_mem m hm', hleads⟩
  · cases before with
    | cons _ before =>
      obtain ⟨rfl, hrest⟩ := List.cons.inj hsplit
      exact h.texts before m' after hrest hlast
    | nil =>
      obtain ⟨rfl, rfl⟩ := List.cons.inj hsplit
      obtain ⟨file, hfile, htext⟩ := hwritten.text
      refine ⟨number, file, hnumber, ?_, htext⟩
      rw [← hfile]
      by_contra hchanged
      obtain ⟨m', hm', hleads⟩ := h.files number hchanged
      exact hlast m' hm' (hleads.trans hnumber.symm)

/-- **A build writes the scripts of its modules** and nothing else. -/
theorem writtenBy_of_yields (hv : v.Numbered) {root out : Path} {r : Request}
    (hmode : r.mode = .emit) {texts : List (Path × String)} {files : List SourceFile}
    {modules : List CompiledModule}
    (h : Yields (compileAll root out r texts files) v modules v') : v.WrittenBy v' modules := by
  induction files generalizing texts v modules with
  | nil =>
    obtain ⟨rfl, rfl⟩ := yields_pure_iff.1 h
    exact v.writtenBy_nil
  | cons file files ih =>
    obtain ⟨text, m, v₁, rest, hstep, hrest, rfl⟩ := yields_compileAll_cons_iff.1 h
    have hwrite := (yields_compileStep hstep).2 hmode
    obtain ⟨place, number, hwritten⟩ := exists_of_writeScript hv hwrite
    have hgrows := (moves_within_writeScript _ _ _).of_yields hwrite
    have hwithin := (moves_compileAll (fun _ path text =>
      moves_within_writeScript path text r.executable) root out _ files).of_yields hrest
    exact (ih (hgrows.numbered hv) hrest).cons hwritten hwithin

end Volume

/-! ## What a build leaves behind -/

/-- **A build that stops at a source**: in the order of the imports, the
sources before it are compiled, and it has no script. -/
structure Project.StopsAt (project : Project) (out : Path) (r : Request) (v : Volume)
    (before : List SourceFile) (f : SourceFile) (modules : List CompiledModule) (failure : Failure)
    (v' : Volume) : Prop where
  /-- It comes in the order behind those before it. -/
  order : ∃ after, project.graph.order = .ok ((before ++ f :: after).map (·.path))
    ∧ ∀ g ∈ before ++ f :: after, g ∈ project.files
  /-- Those before it are compiled. -/
  compiled : Yields (compileAll project.root out r [] before) v modules v'
  /-- With it, the build fails. -/
  stopped : Fails (compileAll project.root out r [] (before ++ [f])) v failure v'
  /-- The scripts of those before it have their paths. -/
  modules : modules.map (·.toBuiltModule)
    = before.map fun g => ⟨g.path, scriptPath project.root out g.path⟩
  /-- It has a fault in the setting that it is compiled in. -/
  fault : ∃ texts w fault, StateT.run (settingFor r.options
      (builtText (m := StateM Volume) project.root texts f.path) f.program) v' = (w, v')
    ∧ f.program.chunks w = .error fault ∧ failure = .faulty fault f.source

/-- **A build that fails leaves the scripts of a prefix.** A build changes
nothing unless scripts are asked for. If it fails, and not for want of a
place to write to, then either the directory cannot be read, or its imports
run in a circle, and nothing has changed; or it stops at a source, and those
before it have been written. -/
theorem buildProject_leaves_scripts_before (v : Volume) (hv : v.WellFormed) (src out : Path)
    (r : Request) :
    (r.mode ≠ .emit → (StateT.run (buildProject (m := StateM Volume) src out r).run v).2 = v)
      ∧ ∀ failure v', Fails (buildProject src out r) v failure v' → ¬failure.IsOfWriting →
        (v.Unreadable src failure ∧ v' = v)
          ∨ ∃ project, Yields (readProject src) v project v
            ∧ ((∃ chain, project.graph.order = .error (.importCycle chain)
                ∧ failure = .unordered (.importCycle chain) ∧ v' = v)
              ∨ ∃ before f modules, project.StopsAt out r v before f modules failure v'
                ∧ (r.mode = .emit → v.WrittenBy v' modules)) := by
  have hkeeps : Moves Eq (readProject (m := StateM Volume) src).run := moves_readProject src
  refine ⟨fun hmode => ?_, fun failure v' h hwrites => ?_⟩
  · have hmoves : Moves Eq (buildProject (m := StateM Volume) src out r).run :=
      moves_buildProject (fun hemit => absurd hemit hmode) src out
    exact (hmoves v).symm
  · unfold buildProject at h
    obtain hread | ⟨project, v₁, hread, hrest⟩ := fails_bind_iff.1 h
    · exact .inl ⟨unreadable_of_fails hread, (hkeeps.of_fails hread).symm⟩
    · obtain rfl : v = v₁ := hkeeps.of_yields hread
      refine .inr ⟨project, hread, ?_⟩
      have hmap := hv.isMap_of_yields hread
      obtain hcompile | ⟨_, _, -, hpure⟩ := fails_bind_iff.1 hrest
      · unfold compileProject at hcompile
        cases horder : project.graph.order with
        | error fault =>
          rw [horder] at hcompile
          cases hcompile
          obtain ⟨chain, rfl, -⟩ := hmap.isCircle_of_order horder
          exact .inl ⟨chain, rfl, rfl, rfl⟩
        | ok order =>
          rw [horder] at hcompile
          obtain ⟨hscheduled, -⟩ := hmap.scheduled_of_order horder
          have hpaths := Project.map_path_filesAt hscheduled.subset_modules
          have hknown : ∀ g ∈ project.filesAt order, g ∈ project.files :=
            fun g hg => Project.mem_of_mem_filesAt hg
          obtain ⟨before, f, after, modules, hsplit, hbefore, hstops, hfault⟩ :=
            fails_compileAll hcompile hwrites
          rw [hsplit] at hpaths hknown
          refine .inr ⟨before, f, modules, ⟨⟨after, ?_, hknown⟩, hbefore, hstops,
            map_toBuiltModule_of_yields hbefore, hfault⟩, fun hmode => ?_⟩
          · rw [horder, hpaths]
          · exact writtenBy_of_yields hv.numbered hmode hbefore
      · exact absurd hpure (not_fails_pure _)

/-! ## Two paths to one file -/

/-- Reading a directory of sources that import nothing. -/
theorem yields_readProject_of_sources {v : Volume} {src root : Path} {paths : List Path}
    {sources : List (Path × String × Program)} (hroot : v.canonical src = .ok root)
    (hunder : v.filesUnder root = .ok paths)
    (hpaths : paths.filter isSourcePath = sources.map (·.1))
    (hsorted : (sources.map (·.1)).Pairwise fun path path' => Path.le path path')
    (hsources : ∀ source ∈ sources, v.readText source.1 = .ok source.2.1
      ∧ Program.parse source.2.1 = .ok source.2.2 ∧ source.2.2.outerImports = []) :
    Yields (readProject src) v ⟨root, sources.map fun source =>
      ⟨source.1, ⟨source.1.text, source.2.1⟩, source.2.2, []⟩⟩ v := by
  have hfile : ∀ source ∈ sources, Yields (readSourceFile source.1) v
      ⟨source.1, ⟨source.1.text, source.2.1⟩, source.2.2, []⟩ v := by
    intro source hsource
    obtain ⟨htext, hprogram, himports⟩ := hsources source hsource
    unfold readSourceFile readSource
    refine yields_bind_iff.2 ⟨⟨source.1.text, source.2.1⟩, v, yields_bind_iff.2 ⟨source.2.1, v,
      (yields_orFail_iff (reads_readText source.1)).2 ⟨htext, rfl⟩,
      yields_pure_iff.2 ⟨rfl, rfl⟩⟩, ?_⟩
    refine yields_bind_iff.2 ⟨source.2.2, v, yields_inSource_iff.2 ⟨hprogram, rfl⟩, ?_⟩
    rw [himports]
    exact yields_pure_iff.2 ⟨rfl, rfl⟩
  unfold readProject
  refine yields_bind_iff.2 ⟨root, v,
    (yields_orFail_iff (reads_canonical src)).2 ⟨hroot, rfl⟩, ?_⟩
  refine yields_bind_iff.2 ⟨paths, v,
    (yields_orFail_iff (reads_filesUnder root)).2 ⟨hunder, rfl⟩, ?_⟩
  rw [hpaths, List.mergeSort_of_pairwise hsorted]
  exact yields_bind_iff.2 ⟨_, v, yields_mapM_map hfile, yields_pure_iff.2 ⟨rfl, rfl⟩⟩

/-- Sources of which the last one has no script. -/
def linkedSources : List (Path × String × Program) :=
  [(⟨"/ROOT/src/self/cwd/x.js"⟩, "f();",
      ⟨[.expression (.call (.identifier "f" ⟨0, 1⟩) [] ⟨0, 3⟩) ⟨0, 4⟩], ⟨0, 4⟩⟩),
    (⟨"/ROOT/src/thread-self/cwd/x.js"⟩, "g();",
      ⟨[.expression (.call (.identifier "g" ⟨0, 1⟩) [] ⟨0, 3⟩) ⟨0, 4⟩], ⟨0, 4⟩⟩),
    (⟨"/ROOT/src/z.js"⟩, "break;", ⟨[.exit ⟨0, 6⟩], ⟨0, 6⟩⟩)]

/-- A volume with these sources, in which two links lead to the directory where
relative paths start. -/
def linkedVolume : Volume :=
  { entries :=
      [(["proc"], .directory), (["proc", "self"], .directory),
        (["proc", "thread-self"], .directory), (["proc", "self", "cwd"], .link ⟨"/ROOT"⟩),
        (["proc", "thread-self", "cwd"], .link ⟨"/ROOT"⟩), (["ROOT"], .directory),
        (["ROOT", "src"], .directory),
        (["ROOT", "src", "self"], .directory), (["ROOT", "src", "self", "cwd"], .directory),
        (["ROOT", "src", "thread-self"], .directory),
        (["ROOT", "src", "thread-self", "cwd"], .directory),
        (["ROOT", "src", "self", "cwd", "x.js"], .file 0),
        (["ROOT", "src", "thread-self", "cwd", "x.js"], .file 1),
        (["ROOT", "src", "z.js"], .file 2)]
    files := linkedSources.map fun source => ⟨source.2.1.toUTF8, false⟩
    current := ["ROOT"] }

/-- The sources of this volume as they are read. -/
def linkedFiles : List SourceFile :=
  linkedSources.map fun source => ⟨source.1, ⟨source.1.text, source.2.1⟩, source.2.2, []⟩

theorem yields_readProject_linkedVolume :
    Yields (readProject ⟨"src"⟩) linkedVolume ⟨⟨"/ROOT/src"⟩, linkedFiles⟩ linkedVolume := by
  have hunder : linkedVolume.filesUnder ⟨"/ROOT/src"⟩ = .ok (linkedSources.map (·.1)) := by
    decide +kernel
  refine yields_readProject_of_sources (by decide +kernel) hunder (by decide +kernel)
    (by decide +kernel) ?_
  unfold linkedSources
  simp only [List.forall_mem_cons]
  exact ⟨⟨by decide +kernel, rfl, rfl⟩, ⟨by decide +kernel, rfl, rfl⟩,
    ⟨by decide +kernel, rfl, rfl⟩, nofun⟩

/-- The text that a build of these sources leaves at the path of the first
script, if a source has a fault. -/
def linkedOutcome : Option (Except Refusal String) :=
  match StateT.run (compileAll (m := StateM Volume) ⟨"/ROOT/src"⟩ ⟨"/proc"⟩ {} []
    linkedFiles).run linkedVolume with
  | (.error (.faulty _ _), v') => some (v'.readText ⟨"/proc/self/cwd/x.sh"⟩)
  | _ => none

theorem fails_compileAll_linkedFiles : ∃ fault source v',
    Fails (compileAll ⟨"/ROOT/src"⟩ ⟨"/proc"⟩ {} [] linkedFiles) linkedVolume
        (.faulty fault source) v'
      ∧ Fails (buildProject ⟨"src"⟩ ⟨"/proc"⟩ {}) linkedVolume (.faulty fault source) v'
      ∧ v'.readText ⟨"/proc/self/cwd/x.sh"⟩ = .ok "#!/usr/bin/env bash\n\ng\n" := by
  have horder : (Project.graph ⟨⟨"/ROOT/src"⟩, linkedFiles⟩).order
      = .ok (linkedFiles.map (·.path)) := by
    rw [ImportGraph.order_eq_of_pairwise (by decide +kernel)]
    decide +kernel
  have hfiles : Project.filesAt ⟨⟨"/ROOT/src"⟩, linkedFiles⟩ (linkedFiles.map (·.path))
      = linkedFiles := rfl
  have hleft : linkedOutcome = some (.ok "#!/usr/bin/env bash\n\ng\n") := by decide +kernel
  unfold linkedOutcome at hleft
  split at hleft
  · next fault source v' hrun =>
    refine ⟨fault, source, v', hrun, ?_, Option.some.inj hleft⟩
    refine fails_bind_iff.2 (.inr ⟨_, _, yields_readProject_linkedVolume, ?_⟩)
    refine fails_bind_iff.2 (.inl ?_)
    unfold compileProject
    rw [horder]
    dsimp only
    rw [hfiles]
    exact hrun
  · cases hleft

theorem linkedVolume_leaves_scripts_before :
    linkedVolume.WellFormed
      ∧ ∃ failure v', Fails (buildProject ⟨"src"⟩ ⟨"/proc"⟩ {}) linkedVolume failure v'
        ∧ ¬failure.IsOfWriting
        ∧ ∃ project before f modules,
          Project.StopsAt project ⟨"/proc"⟩ {} linkedVolume before f modules failure v'
            ∧ linkedVolume.WrittenBy v' modules := by
  have hv : linkedVolume.WellFormed := by decide +kernel
  obtain ⟨fault, source, v', -, hbuild, htext⟩ := fails_compileAll_linkedFiles
  refine ⟨hv, _, v', hbuild, id, ?_⟩
  have hchanged : v' ≠ linkedVolume := by
    rintro rfl
    exact absurd htext (by decide +kernel)
  obtain ⟨-, heq⟩ | ⟨project, -, ⟨_, -, -, heq⟩ | ⟨before, f, modules, hstops, hwritten⟩⟩ :=
    (buildProject_leaves_scripts_before linkedVolume hv ⟨"src"⟩ ⟨"/proc"⟩ {}).2 _ v' hbuild id
  · exact absurd heq hchanged
  · exact absurd heq hchanged
  · exact ⟨project, before, f, modules, hstops, hwritten rfl⟩

/-- **Two paths may lead to one file.** Of the scripts that are written before
the build stops, one is alone at its path, and yet another text is found
there. -/
theorem linkedSources_share_script :
    ∃ failure v' modules, Fails (buildProject ⟨"src"⟩ ⟨"/proc"⟩ {}) linkedVolume failure v'
      ∧ ¬failure.IsOfWriting
      ∧ Yields (compileAll ⟨"/ROOT/src"⟩ ⟨"/proc"⟩ {} [] (linkedFiles.take 2)) linkedVolume
          modules v'
      ∧ ∃ m ∈ modules, (∀ m' ∈ modules, m'.output = m.output → m' = m)
        ∧ v'.readText m.output ≠ .ok m.text := by
  obtain ⟨fault, source, v', hcompile, hbuild, htext⟩ := fails_compileAll_linkedFiles
  obtain ⟨before, f, after, modules, hsplit, hbefore, -, _, w, _, -, hfault, -⟩ :=
    fails_compileAll hcompile id
  -- the first two sources have scripts in any setting
  have hfront : before = linkedFiles.take 2 := by
    match before, hsplit with
    | [], hsplit =>
      obtain ⟨rfl, -⟩ := List.cons.inj hsplit
      cases hfault
    | [_], hsplit =>
      obtain ⟨rfl, -⟩ := List.cons.inj (List.cons.inj hsplit).2
      cases hfault
    | [_, _], hsplit => exact (congrArg (List.take 2) hsplit).symm
    | _ :: _ :: _ :: before, hsplit =>
      have hlength := congrArg List.length hsplit
      simp [linkedFiles, linkedSources] at hlength
  rw [hfront] at hbefore
  have hmodules : (StateT.run (compileAll (m := StateM Volume) ⟨"/ROOT/src"⟩ ⟨"/proc"⟩ {} []
      (linkedFiles.take 2)).run linkedVolume).1.toOption = some
        [⟨⟨⟨"/ROOT/src/self/cwd/x.js"⟩, ⟨"/proc/self/cwd/x.sh"⟩⟩, "#!/usr/bin/env bash\n\nf\n"⟩,
          ⟨⟨⟨"/ROOT/src/thread-self/cwd/x.js"⟩, ⟨"/proc/thread-self/cwd/x.sh"⟩⟩,
            "#!/usr/bin/env bash\n\ng\n"⟩] := by
    decide +kernel
  rw [hbefore] at hmodules
  obtain rfl := Option.some.inj hmodules
  refine ⟨_, v', _, hbuild, id, hbefore, _, List.mem_cons_self, by decide, ?_⟩
  rw [htext]
  decide

end ScriptToShell
