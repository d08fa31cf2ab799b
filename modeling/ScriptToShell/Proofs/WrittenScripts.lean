import ScriptToShell.Proofs.ScriptPlaces

/-!
# What a build writes

A build writes its scripts one by one into a tree. Two sources may have their
scripts at one path, and then the later one has overwritten the earlier one.
So all that can be said of a path is that it holds the text of the last source
that is written to it (`FileTree.WrittenBy`). That one script does not
overwrite another by a path that is spelled in a different way rests on
`scriptPath_eq_of_locate`.
-/

namespace ScriptToShell

open FileTree Shell

/-! ## Writing -/

namespace FileTree

variable {t t' : FileTree} {path : Path}

/-- Where a segment leads nowhere, a free name can only be its own. -/
theorem free_of_enter_eq_none {place directory : List String} {segment : List Char}
    {rest : List (List Char)} {name : String} (h : t.enter place segment = none)
    (hfree : t.follow place (segment :: rest) = .ok (.free directory name)) :
    t.kindAt? place = some .directory ∧ Path.isIdle segment = false ∧ segment ≠ ['.', '.']
      ∧ directory = place ∧ name = String.ofList segment ∧ ∀ s ∈ rest, s = [] := by
  rw [follow.eq_2] at hfree
  unfold enter at h
  grind

/-- A way to a free name leads to what comes there, if it ends with the
name. -/
theorem Within.follow_of_free (h : t.Within t') {place directory : List String}
    {segments : List (List Char)} {name : String} {kind : FileKind}
    (hfree : t.follow place segments = .ok (.free directory name))
    (hends : segments.getLast? ≠ some []) (hkind : t'.kindAt? (directory ++ [name]) = some kind) :
    t'.follow place segments = .ok (.taken (directory ++ [name]) kind) := by
  induction segments generalizing place with
  | nil =>
    unfold follow at hfree
    split at hfree <;> cases hfree
  | cons segment rest ih =>
    cases henter : t.enter place segment with
    | some next =>
      rw [follow_cons_of_enter henter] at hfree
      rw [follow_cons_of_enter (h.enter_eq henter)]
      refine ih hfree fun hlast => hends ?_
      rw [List.getLast?_cons, hlast]
      rfl
    | none =>
      obtain ⟨hplace, hidle, hup, rfl, rfl, hempty⟩ := free_of_enter_eq_none henter hfree
      have hnil : rest = [] := by
        by_contra hne
        obtain ⟨front, last, rfl⟩ := (List.eq_nil_or_concat' rest).resolve_left hne
        rw [hempty last (by simp), ← List.cons_append, List.getLast?_concat] at hends
        exact hends rfl
      have henter' : t'.enter directory segment = some (directory ++ [String.ofList segment]) := by
        refine enter_eq_some_iff.2 ⟨h.kindAt _ _ hplace, .inr (.inr ⟨hidle, hup, rfl, ?_⟩)⟩
        rw [hkind]
        rfl
      rw [hnil, follow_cons_of_enter henter', follow, hkind]

theorem Within.locate_of_free (h : t.Within t') {directory : List String} {name : String}
    {kind : FileKind} (hfree : t.locate path = .ok (.free directory name))
    (hends : path.text.toList.getLast? ≠ some '/')
    (hkind : t'.kindAt? (directory ++ [name]) = some kind) :
    t'.locate path = .ok (.taken (directory ++ [name]) kind) := by
  unfold locate at hfree ⊢
  split at hfree
  · cases hfree
  · next hempty =>
    have hne : path.text.toList ≠ [] := fun hnil => hempty (String.isEmpty_iff.2
      (String.toList_inj.1 hnil))
    rw [if_neg hempty, h.current]
    exact h.follow_of_free hfree (Path.getLast?_segments_ne_nil hne hends) hkind

/-- **Writing to a path** puts a file where the path then leads. -/
theorem exists_put_of_writeText {text : String} (h : t.writeText path text = .ok t') :
    ∃ place executable, t' = t.put place ⟨text.toUTF8, executable⟩
      ∧ t'.HasText place text ∧ t'.locate path = .ok (.taken place .file) := by
  unfold writeText at h
  split at h
  · cases hlocate : t.locate (withoutSlashes path) with
    | error reason =>
      rw [hlocate] at h
      cases h
    | ok spot =>
      rw [hlocate] at h
      cases h
  · next hends =>
    cases hlocate : t.locate path with
    | error reason =>
      rw [hlocate] at h
      cases h
    | ok spot =>
      rw [hlocate] at h
      cases spot with
      | free directory name =>
        cases h
        have hfree : t.kindAt? (directory ++ [name]) ≠ some .directory := by
          rw [kindAt?_of_locate hlocate]
          exact nofun
        have htext := hasText_put hfree text false
        exact ⟨_, _, rfl, htext, (within_put t _ _).locate_of_free hlocate hends htext.kindAt⟩
      | taken place kind =>
        cases kind with
        | directory => cases h
        | file =>
          cases h
          have hfile : t.kindAt? place ≠ some .directory := by
            rw [(reach_trail_of_locate hlocate).2]
            exact nofun
          exact ⟨place, _, rfl, hasText_put hfile text _, (within_put t _ _).locate_eq hlocate⟩

/-- A tree with the files of another one. -/
def SameFiles (t t' : FileTree) : Prop := t'.files = t.files

instance : IsPreorder FileTree SameFiles where
  refl _ := rfl
  trans _ _ _ h h' := Eq.trans h' h

theorem sameFiles_makeDirectory (h : t.makeDirectory path = .ok t') : t.SameFiles t' := by
  unfold makeDirectory at h
  cases hlocate : t.locate path with
  | error reason =>
    rw [hlocate] at h
    cases h
  | ok spot =>
    rw [hlocate] at h
    cases spot with
    | taken place kind => cases h
    | free directory name =>
      cases h
      exact (rfl : t.files = t.files)

end FileTree

/-- **Writing a script**, with whatever directories it takes, puts its text
where the path then leads, and leaves all other files alone. -/
theorem exists_place_of_writeScript {t t' : FileTree} {path : Path} {text : String}
    {executable : Bool} (h : Yields (writeScript path text executable) t () t') :
    ∃ place, t'.locate path = .ok (.taken place .file) ∧ t'.HasText place text
      ∧ ∀ place' ≠ place, t'.fileAt? place' = t.fileAt? place' := by
  -- the directories come first and are no files
  obtain ⟨t₁, hrest, hmade⟩ := exists_putScript_of_yields h
  have hsame : t.SameFiles t₁ := hmade _ fun _ => moves_update fun _ _ => sameFiles_makeDirectory
  obtain ⟨_, t₂, hput, hmark⟩ := yields_bind_iff.1 hrest
  obtain ⟨place, executable', rfl, htext, hlocate⟩ :=
    exists_put_of_writeText (eq_ok_of_run_update (yields_orFail_run_iff.1 hput))
  have hfiles : ∀ place', t₁.fileAt? place' = t.fileAt? place' := by
    intro place'
    unfold fileAt?
    rw [hsame]
  have helse : ∀ file, ∀ place' ≠ place, (t₁.put place file).fileAt? place' = t.fileAt? place' := by
    intro file place' hne
    rw [fileAt?_put, if_neg hne, hfiles]
  refine ⟨place, ?_⟩
  cases executable with
  | false =>
    obtain ⟨-, rfl⟩ := yields_pure_iff.1 hmark
    exact ⟨hlocate, htext, helse _⟩
  | true =>
    have hmarked := (Prod.mk.inj (yields_lift_run_iff.1 hmark)).2.symm.trans
      (htext.markExecutable_eq hlocate)
    subst hmarked
    have hfile : (t₁.put place ⟨text.toUTF8, executable'⟩).kindAt? place ≠ some .directory := by
      rw [htext.kindAt]
      exact nofun
    refine ⟨(within_put _ _ _).locate_eq hlocate, hasText_put hfile text true, fun place' hne => ?_⟩
    rw [fileAt?_put, if_neg hne, helse _ place' hne]

/-! ## What a build writes -/

/-- **A tree that modules have been written to**: a file that has changed is
the script of one of them, and a script has the text of the last module that
has its path. -/
structure FileTree.WrittenBy (t t' : FileTree) (modules : List CompiledModule) : Prop where
  /-- A file that has changed is the script of a module. -/
  changed : ∀ place, t'.fileAt? place ≠ t.fileAt? place →
    ∃ m ∈ modules, t'.locate m.output = .ok (.taken place .file)
  /-- A script that is not overwritten has its text. -/
  texts : ∀ before m after, modules = before ++ m :: after → (∀ m' ∈ after, m'.output ≠ m.output) →
    t'.readText m.output = .ok m.text

theorem FileTree.writtenBy_nil (t : FileTree) : t.WrittenBy t [] := by
  refine ⟨fun place hchanged => absurd rfl hchanged, fun before m after hnil => ?_⟩
  exact absurd hnil.symm (List.append_ne_nil_of_right_ne_nil _ (List.cons_ne_nil _ _))

/-- A script stays as it is until one is written to the same path, if no two
paths lead to one place. -/
theorem FileTree.WrittenBy.cons {t t₁ t' : FileTree} {m : CompiledModule}
    {rest : List CompiledModule} {executable : Bool} (h : t₁.WrittenBy t' rest)
    (hwrite : Yields (writeScript m.output m.text executable) t () t₁) (hwithin : t₁.Within t')
    (hapart : ∀ m' ∈ rest, ∀ place, t'.locate m.output = .ok (.taken place .file) →
      t'.locate m'.output = .ok (.taken place .file) → m'.output = m.output) :
    t.WrittenBy t' (m :: rest) := by
  obtain ⟨place, hlocate, htext, helse⟩ := exists_place_of_writeScript hwrite
  have hlocate' := hwithin.locate_eq hlocate
  refine ⟨fun place' hchanged => ?_, fun before m' after hsplit hlast => ?_⟩
  · by_cases hplace : place' = place
    · exact ⟨m, List.mem_cons_self, hplace ▸ hlocate'⟩
    · rw [← helse place' hplace] at hchanged
      obtain ⟨m', hm', hleads⟩ := h.changed place' hchanged
      exact ⟨m', List.mem_cons_of_mem m hm', hleads⟩
  · cases before with
    | cons _ before =>
      obtain ⟨rfl, hrest⟩ := List.cons.inj hsplit
      exact h.texts before m' after hrest hlast
    | nil =>
      obtain ⟨rfl, rfl⟩ := List.cons.inj hsplit
      have hfile : t'.fileAt? place = t₁.fileAt? place := by
        by_contra hchanged
        obtain ⟨m', hm', hleads⟩ := h.changed place hchanged
        exact hlast m' hm' (hapart m' hm' place hlocate' hleads)
      rw [readText_congr hlocate hlocate' hfile]
      exact htext.readText_eq hlocate

/-- **A build writes the scripts of its modules** and nothing else. -/
theorem Project.FoundBelow.writtenBy {project : Project} {t₀ t t' : FileTree} {src : Path}
    {root : List String} (h : project.FoundBelow t₀ src root) (ht : t₀.IsFileSystem) {out : Path}
    {r : Request} (hmode : r.mode = .emit) {texts : List (Path × String)} {files : List SourceFile}
    (hknown : ∀ f ∈ files, f ∈ project.files) {modules : List CompiledModule}
    (hcompile : Yields (compileAll project.root out r texts files) t modules t') :
    t.WrittenBy t' modules := by
  induction files generalizing texts t modules with
  | nil =>
    obtain ⟨rfl, rfl⟩ := yields_pure_iff.1 hcompile
    exact t.writtenBy_nil
  | cons file files ih =>
    rw [List.forall_mem_cons] at hknown
    obtain ⟨text, m, t₁, rest, hstep, hrest, rfl⟩ := yields_compileAll_cons_iff.1 hcompile
    obtain ⟨hm, hwrite⟩ := yields_compileStep hstep
    have hwithin := hrest.within (moves_compileAll (fun _ path text =>
      adds_writeScript path text r.executable) project.root out _ files)
    refine (ih hknown.2 hrest).cons (hwrite hmode) hwithin fun m' hm' place hlocate hlocate' => ?_
    have hmem : m'.toBuiltModule ∈ rest.map (·.toBuiltModule) := List.mem_map_of_mem hm'
    rw [map_toBuiltModule_of_yields hrest] at hmem
    obtain ⟨g, hg, hgm⟩ := List.mem_map.1 hmem
    have houtput : m.output = scriptPath project.root out file.path := by rw [hm]
    have houtput' : m'.output = scriptPath project.root out g.path := by rw [← hgm]
    rw [houtput] at hlocate ⊢
    rw [houtput'] at hlocate' ⊢
    exact h.scriptPath_eq_of_locate ht (hknown.2 g hg) hknown.1 hlocate' hlocate

/-! ## Sources to build -/

/-- A tree with sources below `/src`, given by their names, their texts and
what they spell. -/
def sourceTree (sources : List (String × String × List Stmt)) : FileTree :=
  { files := sources.map fun source => (["src", source.1], ⟨source.2.1.toUTF8, false⟩)
    directories := [["src"]] }

/-- What such a tree is read as. -/
def sourceProject (sources : List (String × String × List Stmt)) : Project :=
  ⟨⟨"/src"⟩, sources.map fun source =>
    let path : Path := ⟨"/src/" ++ source.1⟩
    let program : Program := ⟨source.2.2, ⟨0, source.2.1.utf8ByteSize⟩⟩
    ⟨path, ⟨path.text, source.2.1⟩, program,
      program.outerImports.filterMap ((sourceTree sources).sourceOf? path)⟩⟩

theorem yields_readProject_sourceTree {sources : List (String × String × List Stmt)}
    (hroot : (sourceTree sources).canonical ⟨"src"⟩ = .ok ⟨"/src"⟩)
    (hfound : ((sourceTree sources).filesUnder ⟨"/src"⟩).filter isSourcePath
      = sources.map fun source => ⟨"/src/" ++ source.1⟩)
    (hsorted : (sources.map fun source => (⟨"/src/" ++ source.1⟩ : Path)).Pairwise
      fun path path' => Path.le path path')
    (htexts : ∀ source ∈ sources,
      (sourceTree sources).readText ⟨"/src/" ++ source.1⟩ = .ok source.2.1)
    (hparse : ∀ source ∈ sources,
      Program.parse source.2.1 = .ok ⟨source.2.2, ⟨0, source.2.1.utf8ByteSize⟩⟩) :
    Yields (readProject ⟨"src"⟩) (sourceTree sources) (sourceProject sources)
      (sourceTree sources) := by
  refine yields_readProject_iff.2 ⟨hroot, ?_⟩
  have hfound' : ((sourceTree sources).filesUnder (sourceProject sources).root).filter isSourcePath
      = sources.map fun source => ⟨"/src/" ++ source.1⟩ := hfound
  rw [hfound', List.mergeSort_of_pairwise hsorted]
  exact yields_mapM_map fun source hsource => yields_readSourceFile_iff.2
    ⟨_, _, htexts source hsource, hparse source hsource, rfl, rfl⟩

end ScriptToShell
