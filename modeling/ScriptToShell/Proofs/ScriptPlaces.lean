import ScriptToShell.Proofs.OutputPath
import ScriptToShell.Proofs.TreeWalk

/-!
# Where scripts are

The script of a source is written beside the source, under its name with
another extension (`scriptPlace`). Two rules lead there, and they have
nothing in common in the text of paths. A build writes to a path it puts
together from the path of the project and the steps to the source
(`Project.FoundBelow.leadsTo_scriptPath`). A module is looked for at a path
put together from the path of the importing source and the steps of the
specifier (`leadsTo_resolve`).

The two rules meet only if the specifier takes a step. One that takes none
stays in the directory of the importing source, and while a source may be
found there, by the name of the directory with an extension, no script is
(`kind?_resolve_ne_file`).
-/

namespace ScriptToShell

open FileTree Shell

/-! ## Where sources are -/

/-- The place that the steps of a path spell. -/
def Path.place (p : Path) : List String := p.trail.map String.ofList

namespace FileTree

theorem place_pathOf {place : List String} (h : ∀ name ∈ place, IsEntryName name) :
    (pathOf place).place = place := by
  rw [Path.place, trail_pathOf h, List.map_map]
  exact List.map_id'' (fun _ => String.ofList_toList) place

theorem locate_of_canonical {t : FileTree} {path canonical : Path}
    (h : t.canonical path = .ok canonical) :
    ∃ place kind, t.locate path = .ok (.taken place kind) ∧ canonical = pathOf place := by
  unfold FileTree.canonical at h
  cases hlocate : t.locate path with
  | error refusal =>
    rw [hlocate] at h
    cases h
  | ok spot =>
    rw [hlocate] at h
    cases spot with
    | free directory name => cases h
    | taken place kind => exact ⟨place, kind, rfl, (Except.ok.inj h).symm⟩

/-- A path to a file leads to the place of the file. -/
theorem IsFileSystem.locate_of_canonical {t : FileTree} (ht : t.IsFileSystem) {path : Path}
    {place : List String} {kind : FileKind} (hkind : t.kindAt? place = some kind)
    (h : t.canonical path = .ok (pathOf place)) : t.locate path = .ok (.taken place kind) := by
  obtain ⟨found, kind', hlocate, hpath⟩ := FileTree.locate_of_canonical h
  have hfound := (reach_trail_of_locate hlocate).2
  have hplace := congrArg Path.place hpath
  rw [place_pathOf (ht.names_of_kindAt? hkind), place_pathOf (ht.names_of_kindAt? hfound)] at hplace
  subst hplace
  rw [hlocate, ← Option.some.inj (hkind.symm.trans hfound)]

end FileTree

/-- **A source as it is found in a tree.** -/
structure SourceFile.FoundIn (f : SourceFile) (t : FileTree) : Prop where
  /-- There is a file. -/
  kindAt : t.kindAt? f.path.place = some .file
  /-- The path is that of its place. -/
  path : f.path = pathOf f.path.place
  /-- The file is a source. -/
  isSource : isSourcePath f.path = true
  /-- It has the text of the source. -/
  text : t.readText f.path = .ok f.source.text
  /-- The text spells the program. -/
  program : Program.parse f.source.text = .ok f.program

/-- **A project as it is found below a place.** -/
structure Project.FoundBelow (project : Project) (t : FileTree) (src : Path) (root : List String) :
    Prop where
  /-- The path of the project leads to the place. -/
  locate : ∃ kind, t.locate src = .ok (.taken root kind)
  /-- Its canonical path is that of the place. -/
  canonical : project.root = pathOf root
  /-- The sources are there. -/
  files : ∀ f ∈ project.files, f.FoundIn t ∧ root <+: f.path.place

theorem exists_foundBelow {t : FileTree} (ht : t.IsFileSystem) {src : Path} {project : Project}
    (h : Yields (readProject src) t project t) : ∃ root, project.FoundBelow t src root := by
  obtain ⟨hcanonical, hfiles⟩ := yields_readProject_iff.1 h
  obtain ⟨root, kind, hlocate, hroot⟩ := FileTree.locate_of_canonical hcanonical
  have hfile : ∀ path f t', Yields (readSourceFile path) t f t' → t' = t ∧ f.path = path
      ∧ t.readText f.path = .ok f.source.text ∧ Program.parse f.source.text = .ok f.program := by
    intro path f t' hf
    obtain ⟨text, program, htext, hprogram, rfl, rfl⟩ := yields_readSourceFile_iff.1 hf
    exact ⟨rfl, rfl, htext, hprogram⟩
  obtain ⟨-, hpaths, htexts⟩ := yields_mapM hfile hfiles
  refine ⟨root, ⟨kind, hlocate⟩, hroot, fun f hf => ?_⟩
  have hmem : f.path ∈ ((t.filesUnder project.root).filter isSourcePath).mergeSort Path.le :=
    hpaths ▸ List.mem_map_of_mem hf
  obtain ⟨hunder, hsource⟩ := List.mem_filter.1 ((List.mergeSort_perm _ _).mem_iff.1 hmem)
  have hkind := (reach_trail_of_locate hlocate).2
  unfold filesUnder at hunder
  rw [hroot, ht.locate_pathOf hkind] at hunder
  obtain ⟨entry, hentry, hpath⟩ := List.mem_map.1 hunder
  obtain ⟨hentry, hprefix⟩ := List.mem_filter.1 hentry
  have hplace : f.path.place = entry.1 := by
    rw [← hpath]
    exact place_pathOf (ht.names entry hentry)
  refine ⟨⟨?_, ?_, hsource, (htexts f hf).1, (htexts f hf).2⟩, ?_⟩
  · rw [hplace]
    exact ht.fileKinds entry hentry
  · rw [hplace]
    exact hpath.symm
  · rw [hplace]
    exact List.isPrefixOf_iff_prefix.1 hprefix

/-! ## Where scripts are -/

/-- The place of the script of the file at a place. -/
def scriptPlace (place : List String) : List String :=
  place.dropLast ++ (place.getLast?.map fun name => String.ofList (scriptName name.toList)).toList

theorem scriptPlace_concat (directory : List String) (name : String) :
    scriptPlace (directory ++ [name]) = directory ++ [String.ofList (scriptName name.toList)] := by
  simp [scriptPlace]

namespace Project.FoundBelow

variable {project : Project} {t : FileTree} {src : Path} {root : List String}
  (h : project.FoundBelow t src root) (ht : t.IsFileSystem) {f g : SourceFile}
include h ht

/-- The path of a source below the root takes the steps from there. -/
theorem relative_eq (hf : f ∈ project.files) {rest : List String}
    (hrest : root ++ rest = f.path.place) :
    (f.path.stripPrefix? project.root).getD f.path
      = (Path.ofComponents []).walk (rest.map String.toList) := by
  have hfound := (h.files f hf).1
  have hnames := ht.names_of_kindAt? hfound.kindAt
  rw [← hrest, List.forall_mem_append] at hnames
  have hcomponents : f.path.components
      = (.root :: root.map .normal) ++ rest.map .normal := by
    rw [hfound.path, ← hrest, components_pathOf (List.forall_mem_append.2 hnames), List.map_append]
    rfl
  have hsteps : rest.map Path.Component.normal
      = (rest.map String.toList).map Path.segmentComponent := by
    rw [List.map_map]
    exact List.map_congr_left fun name hname => (hnames.2 name hname).segment.2.symm
  unfold Path.stripPrefix?
  rw [h.canonical, components_pathOf hnames.1, hcomponents]
  dsimp only
  rw [List.take_left, if_pos rfl, List.drop_left, Option.getD_some, hsteps]
  exact Path.ofComponents_append_steps [] _

theorem isStep_rest (hf : f ∈ project.files) {rest : List String}
    (hrest : root ++ rest = f.path.place) : ∀ s ∈ rest.map String.toList, Path.IsStep s := by
  have hnames := ht.names_of_kindAt? (h.files f hf).1.kindAt
  rw [← hrest, List.forall_mem_append] at hnames
  exact List.forall_mem_map.2 fun name hname => (hnames.2 name hname).isStep

/-- **The path of a script leads beside its source.** -/
theorem leadsTo_scriptPath (hf : f ∈ project.files) :
    t.LeadsTo (scriptPath project.root src f.path) (scriptPlace f.path.place) := by
  obtain ⟨kind, hlocate⟩ := h.locate
  obtain ⟨hfound, rest, hrest⟩ := h.files f hf
  have hsteps := h.isStep_rest ht hf hrest
  have hkind := hfound.kindAt
  unfold scriptPath
  rw [h.relative_eq ht hf hrest]
  have habsolute : ((Path.ofComponents []).walk (rest.map String.toList)).isAbsolute = false :=
    Path.isAbsolute_walk hsteps _
  have hstart : t.startOf (src.join ((Path.ofComponents []).walk (rest.map String.toList)))
      = t.startOf src := by
    unfold startOf
    rw [Path.isAbsolute_join habsolute]
  have htrail : (src.join ((Path.ofComponents []).walk (rest.map String.toList))).trail
      = src.trail ++ rest.map String.toList := by
    rw [Path.trail_join habsolute, Path.trail_walk hsteps]
    rfl
  generalize src.join ((Path.ofComponents []).walk (rest.map String.toList)) = path at hstart htrail
  have hreach : t.reach (t.startOf path) path.trail = some f.path.place := by
    rw [hstart, htrail, reach_append, (reach_trail_of_locate hlocate).1, Option.bind_some]
    rw [← hrest] at hkind ⊢
    exact ht.reach_names hkind
  obtain ⟨steps, last, directory, hpath, hup, hdirectory, hkind', hplace⟩ :=
    ht.exists_last_step hreach hkind
  refine ⟨directory, scriptName last, ⟨⟨steps, ?_, ?_⟩, ?_, scriptName_ne_up last, hkind'⟩, ?_⟩
  · exact Path.trail_withExtension hpath hup (by decide) (by decide)
  · unfold startOf at hdirectory ⊢
    rw [Path.isAbsolute_withExtension hpath hup (by decide) (by decide)]
    exact hdirectory
  · exact Path.endsInStep_withExtension hpath hup (by decide) (by decide)
  · rw [hplace, scriptPlace_concat, String.toList_ofList]

/-- Two sources are one, or both of them stand below the root. -/
theorem eq_or_below (hf : f ∈ project.files) (hg : g ∈ project.files) :
    f.path = g.path
      ∨ ∃ names name names' name', root ++ (names ++ [name]) = f.path.place
        ∧ root ++ (names' ++ [name']) = g.path.place := by
  obtain ⟨hfound, rest, hrest⟩ := h.files f hf
  obtain ⟨hfound', rest', hrest'⟩ := h.files g hg
  -- a file that is the root has nothing below it
  have hroot : rest = [] ↔ rest' = [] := by
    have hkind := hfound.kindAt
    have hkind' := hfound'.kindAt
    rw [← hrest] at hkind
    rw [← hrest'] at hkind'
    constructor
    · rintro rfl
      rw [List.append_nil] at hkind
      by_contra hne
      cases hkind.symm.trans (ht.kindAt?_above hkind' hne)
    · rintro rfl
      rw [List.append_nil] at hkind'
      by_contra hne
      cases hkind'.symm.trans (ht.kindAt?_above hkind hne)
  rcases List.eq_nil_or_concat' rest with rfl | ⟨names, name, rfl⟩
  · rw [hroot.1 rfl] at hrest'
    rw [hfound.path, hfound'.path, ← hrest, ← hrest']
    exact .inl rfl
  · obtain ⟨names', name', rfl⟩ :=
      (List.eq_nil_or_concat' rest').resolve_left (mt hroot.2 (by simp))
    exact .inr ⟨names, name, names', name', hrest, hrest'⟩

section Out

variable {out : Path}

/-- The path of a script, spelled out. -/
theorem scriptPath_eq (hf : f ∈ project.files) {names : List String} {name : String}
    (hrest : root ++ (names ++ [name]) = f.path.place) :
    scriptPath project.root out f.path = ⟨String.ofList (Path.unsegments
      (out.base ++ names.map String.toList ++ [scriptName name.toList]))⟩ := by
  have hsteps := h.isStep_rest ht hf hrest
  have hlast : Path.IsStep name.toList := hsteps _ (List.mem_map_of_mem (by simp))
  have hup : name.toList ≠ ['.', '.'] := by
    have hname := ht.names_of_kindAt? (h.files f hf).1.kindAt name (hrest ▸ by simp)
    exact fun heq => hname.2.2.1 (String.toList_inj.1 heq)
  have hne : (names ++ [name]).map String.toList ≠ [] := by simp
  have hsegments : Path.segments (out.join ((Path.ofComponents []).walk
      ((names ++ [name]).map String.toList))).text.toList
        = (out.base ++ names.map String.toList) ++ name.toList :: [] := by
    rw [Path.segments_join (Path.isAbsolute_walk hsteps _),
      ← Path.base_of_endsInStep (Path.endsInStep_walk hsteps _ hne), Path.base_walk hsteps,
      List.map_append, List.append_assoc]
    rfl
  unfold scriptPath
  rw [h.relative_eq ht hf hrest]
  exact Path.withExtension_eq hlast.2 (List.forall_mem_nil _) hsegments hup (by decide)

/-- The path of a script takes the steps of the path of all scripts, then
those to the source. -/
theorem trail_scriptPath (out : Path) (hf : f ∈ project.files) {names : List String} {name : String}
    (hrest : root ++ (names ++ [name]) = f.path.place) :
    (scriptPath project.root out f.path).isAbsolute = out.isAbsolute
      ∧ (scriptPath project.root out f.path).trail
        = out.trail ++ (names.map String.toList ++ [scriptName name.toList])
      ∧ ∀ s ∈ names.map String.toList ++ [scriptName name.toList],
        Path.IsStep s ∧ s ≠ ['.', '.'] := by
  have hsteps := h.isStep_rest ht hf hrest
  have hnames := ht.names_of_kindAt? (h.files f hf).1.kindAt
  rw [← hrest, List.forall_mem_append, List.forall_mem_append] at hnames
  have hdown : ∀ {name : String}, IsEntryName name → name.toList ≠ ['.', '.'] :=
    fun hname heq => hname.2.2.1 (String.toList_inj.1 heq)
  have hup := hdown (hnames.2.2 name List.mem_cons_self)
  have habsolute : ((Path.ofComponents []).walk ((names ++ [name]).map String.toList)).isAbsolute
      = false := Path.isAbsolute_walk hsteps _
  have htrail : (out.join ((Path.ofComponents []).walk ((names ++ [name]).map String.toList))).trail
      = (out.trail ++ names.map String.toList) ++ [name.toList] := by
    rw [Path.trail_join habsolute, Path.trail_walk hsteps, List.map_append, List.append_assoc]
    rfl
  unfold scriptPath
  rw [h.relative_eq ht hf hrest, Path.isAbsolute_withExtension htrail hup (by decide) (by decide),
    Path.isAbsolute_join habsolute, Path.trail_withExtension htrail hup (by decide) (by decide),
    List.append_assoc]
  refine ⟨rfl, rfl, List.forall_mem_append.2 ⟨?_, List.forall_mem_singleton.2 ?_⟩⟩
  · exact List.forall_mem_map.2 fun name hname =>
      ⟨(hnames.2.1 name hname).isStep, hdown (hnames.2.1 name hname)⟩
  · have hslash : '/' ∉ "sh".toList := by decide
    exact ⟨(hnames.2.2 name List.mem_cons_self).isStep.extended hslash, scriptName_ne_up _⟩

/-- **Scripts whose paths lead to one place have one path**, in whatever
tree. -/
theorem scriptPath_eq_of_locate (hf : f ∈ project.files) (hg : g ∈ project.files)
    {t' : FileTree} {place : List String} {kind kind' : FileKind}
    (hlocate : t'.locate (scriptPath project.root out f.path) = .ok (.taken place kind))
    (hlocate' : t'.locate (scriptPath project.root out g.path) = .ok (.taken place kind')) :
    scriptPath project.root out f.path = scriptPath project.root out g.path := by
  obtain heq | ⟨names, name, names', name', hrest, hrest'⟩ := h.eq_or_below ht hf hg
  · rw [heq]
  · obtain ⟨habsolute, htrail, hsteps⟩ := h.trail_scriptPath ht out hf hrest
    obtain ⟨habsolute', htrail', hsteps'⟩ := h.trail_scriptPath ht out hg hrest'
    have hreach := (reach_trail_of_locate hlocate).1
    have hreach' := (reach_trail_of_locate hlocate').1
    rw [startOf, habsolute, htrail, reach_append] at hreach
    rw [startOf, habsolute', htrail', reach_append] at hreach'
    obtain ⟨directory, hdirectory, hreach⟩ := Option.bind_eq_some_iff.1 hreach
    obtain ⟨directory', hdirectory', hreach'⟩ := Option.bind_eq_some_iff.1 hreach'
    cases hdirectory.symm.trans hdirectory'
    -- below the directory of all scripts, the steps are spelled by the place
    have hplace :=
      (eq_append_of_reach hsteps hreach).symm.trans (eq_append_of_reach hsteps' hreach')
    have hnames := (List.map_inj_right fun _ _ => String.ofList_injective).1
      (List.append_cancel_left hplace)
    rw [h.scriptPath_eq ht hf hrest, h.scriptPath_eq ht hg hrest', List.append_assoc,
      List.append_assoc, hnames]

/-- **Scripts at one place have one path.** -/
theorem scriptPath_congr (hf : f ∈ project.files) (hg : g ∈ project.files)
    (hplace : scriptPlace f.path.place = scriptPlace g.path.place) :
    scriptPath project.root out f.path = scriptPath project.root out g.path := by
  obtain heq | ⟨names, name, names', name', hrest, hrest'⟩ := h.eq_or_below ht hf hg
  · rw [heq]
  · rw [← hrest, ← hrest', ← List.append_assoc, ← List.append_assoc, scriptPlace_concat,
      scriptPlace_concat] at hplace
    obtain ⟨hnames, hname⟩ := List.append_inj' hplace rfl
    have hname : scriptName name.toList = scriptName name'.toList :=
      String.ofList_injective (List.singleton_inj.1 hname)
    rw [h.scriptPath_eq ht hf hrest, h.scriptPath_eq ht hg hrest', List.append_cancel_left hnames,
      hname]

end Out

end Project.FoundBelow

/-! ## Where imports lead -/

/-- **A path that takes a step** from where it starts. -/
def Path.TakesStep (p : Path) : Prop := ∃ c ∈ p.components, c ≠ .root ∧ c ≠ .current

instance (p : Path) : Decidable p.TakesStep :=
  inferInstanceAs (Decidable (∃ c ∈ p.components, c ≠ .root ∧ c ≠ .current))

theorem Path.takesStep_iff (p : Path) : p.TakesStep ↔ p.trail ≠ [] := by
  unfold TakesStep
  rw [components_eq]
  have hlead : ∀ c ∈ leadComponent (splitLead p.text.toList).1, c = .root ∨ c = .current := by
    unfold splitLead
    split <;> simp [leadComponent]
  have hstep : ∀ s, segmentComponent s ≠ .root ∧ segmentComponent s ≠ .current := by
    intro s
    unfold segmentComponent
    split <;> exact ⟨nofun, nofun⟩
  constructor
  · rintro ⟨c, hc, hroot, hcurrent⟩ hnil
    rw [hnil, List.map_nil, List.append_nil] at hc
    exact (hlead c hc).elim hroot hcurrent
  · intro hne
    obtain ⟨s, hs⟩ := List.exists_mem_of_ne_nil _ hne
    exact ⟨segmentComponent s, List.mem_append_right _ (List.mem_map_of_mem hs), hstep s⟩

namespace FileTree

variable {t : FileTree} {path q : Path} {place directory : List String}

/-- Where a path written behind another one starts, and what is on the way
there before its own steps: the directory of the first path unless the
second one is absolute. -/
theorem reach_join (hq : t.reach (t.startOf q) q.trail = some directory) (absolute : Bool) :
    ∃ start steps, t.reach start steps = some (if absolute then [] else directory)
      ∧ ∀ x : Path, x.isAbsolute = absolute →
        t.startOf (q.join x) = start ∧ (q.join x).trail = steps ++ x.trail := by
  cases absolute with
  | true =>
    refine ⟨[], [], rfl, fun x hx => ?_⟩
    rw [Path.join_of_isAbsolute hx, startOf, if_pos hx]
    exact ⟨rfl, rfl⟩
  | false =>
    refine ⟨t.startOf q, q.trail, hq, fun x hx => ?_⟩
    rw [Path.trail_join hx, startOf, Path.isAbsolute_join hx]
    exact ⟨rfl, rfl⟩

/-- The parent of a path to a file leads to the directory of the file. -/
theorem IsFileSystem.exists_parent (ht : t.IsFileSystem)
    (hlocate : t.locate path = .ok (.taken place .file)) :
    ∃ q, path.parent = some q ∧ t.reach (t.startOf q) q.trail = some place.dropLast
      ∧ t.kindAt? place.dropLast = some .directory := by
  obtain ⟨hreach, hkind⟩ := reach_trail_of_locate hlocate
  obtain ⟨steps, last, directory, htrail, -, hsteps, hdirectory, rfl⟩ :=
    ht.exists_last_step hreach hkind
  obtain ⟨q, hparent, rfl, habsolute⟩ := Path.exists_parent htrail
  rw [List.dropLast_concat]
  refine ⟨q, hparent, ?_, hdirectory⟩
  rw [startOf, habsolute]
  exact hsteps

end FileTree

theorem scriptName_js {name : List Char} (hne : name ≠ [])
    (hplain : Path.splitExtension name = (name, none)) :
    scriptName (name ++ ['.', 'j', 's']) = scriptName name := by
  have hjs : Path.splitExtension (name ++ '.' :: ['j', 's']) = _ :=
    Path.splitExtension_append name (by decide)
  rw [if_neg hne] at hjs
  unfold scriptName
  rw [hjs, hplain]

/-- The extension of a source is that of its name. -/
theorem SourceFile.FoundIn.extension {t : FileTree} (ht : t.IsFileSystem) {f : SourceFile}
    (hf : f.FoundIn t) {directory : List String} {name : List Char}
    (hplace : f.path.place = directory ++ [String.ofList name]) :
    (Path.splitExtension name).2 = some ['j', 's']
      ∨ (Path.splitExtension name).2 = some ['m', 'j', 's'] := by
  have hnames := ht.names_of_kindAt? hf.kindAt
  have hname := hnames (String.ofList name) (by rw [hplace]; simp)
  have hup : name ≠ ['.', '.'] := fun heq => hname.2.2.1 (by rw [heq])
  have hextension : f.path.extension? = (Path.splitExtension name).2.map String.ofList := by
    rw [hf.path, Path.extension?_eq, trail_pathOf hnames, hplace, List.map_append]
    simp [hup]
  have hsource := hf.isSource
  unfold isSourcePath at hsource
  rw [hextension] at hsource
  cases hsplit : (Path.splitExtension name).2 with
  | none =>
    rw [hsplit] at hsource
    cases hsource
  | some extension =>
    rw [hsplit, Option.map_some] at hsource
    simp only [Option.some.injEq, Bool.or_eq_true, decide_eq_true_eq] at hsource
    rcases hsource with hjs | hmjs
    · exact .inl (congrArg some (by rw [← String.toList_ofList (l := extension), hjs]; rfl))
    · exact .inr (congrArg some (by rw [← String.toList_ofList (l := extension), hmjs]; rfl))

theorem SourceFile.FoundIn.locate_eq {t : FileTree} (ht : t.IsFileSystem) {f : SourceFile}
    (hf : f.FoundIn t) : t.locate f.path = .ok (.taken f.path.place .file) := by
  have hlocate := ht.locate_pathOf hf.kindAt
  rwa [← hf.path] at hlocate

section Import

variable {t : FileTree} (ht : t.IsFileSystem) {f g : SourceFile} (hf : f.FoundIn t)
  (hg : g.FoundIn t) {specifier : String} (hleads : t.sourceOf? f.path specifier = some g.path)
include ht hf hg hleads

/-- **The last step of a specifier** names the source it leads to, with or
without its extension. -/
theorem last_step_of_leads {steps : List (List Char)} {last : List Char}
    (htrail : (⟨specifier⟩ : Path).trail = steps ++ [last]) :
    last ≠ ['.', '.']
      ∧ Layout.isScript ((Path.splitExtension last).2.map String.ofList) = true
      ∧ ∃ directory name, g.path.place = directory ++ [String.ofList name]
        ∧ scriptName name = scriptName last
        ∧ t.reach (if (⟨specifier⟩ : Path).isAbsolute then [] else f.path.place.dropLast) steps
          = some directory
        ∧ t.kindAt? directory = some .directory := by
  obtain ⟨q, hparent, hq, -⟩ := ht.exists_parent (hf.locate_eq ht)
  obtain ⟨start, before, hbase, hjoin⟩ := reach_join hq (⟨specifier⟩ : Path).isAbsolute
  obtain ⟨hstart, hjoined⟩ := hjoin ⟨specifier⟩ rfl
  rw [htrail, ← List.append_assoc] at hjoined
  -- the source that is looked for has an extension, of its own or not
  unfold sourceOf? importPath? at hleads
  rw [hparent, Option.map_some, Option.bind_some] at hleads
  dsimp only at hleads
  generalize q.join ⟨specifier⟩ = joined at hstart hjoined hleads
  have hextension : joined.extension?
      = if last = ['.', '.'] then none else (Path.splitExtension last).2.map String.ofList := by
    rw [Path.extension?_eq, hjoined, List.getLast?_concat, Option.bind_some]
  have hlast : ∀ {candidate : Path} {name : List Char},
      (t.canonical candidate).toOption = some g.path → t.startOf candidate = start →
      candidate.trail = before ++ steps ++ [name] →
      name ≠ ['.', '.'] ∧ ∃ directory, g.path.place = directory ++ [String.ofList name]
        ∧ t.reach (if (⟨specifier⟩ : Path).isAbsolute then [] else f.path.place.dropLast) steps
          = some directory
        ∧ t.kindAt? directory = some .directory := by
    intro candidate name hcanonical hstart' htrail'
    have hplace : t.canonical candidate = .ok (pathOf g.path.place) := by
      rw [← hg.path]
      cases hfound : t.canonical candidate with
      | error refusal =>
        rw [hfound] at hcanonical
        cases hcanonical
      | ok path =>
        rw [hfound] at hcanonical
        exact congrArg Except.ok (Option.some.inj hcanonical)
    obtain ⟨hreach, hkind⟩ := reach_trail_of_locate (ht.locate_of_canonical hg.kindAt hplace)
    obtain ⟨front, name', directory, hfront, hup, hdirectory, hkind', hname⟩ :=
      ht.exists_last_step hreach hkind
    obtain ⟨rfl, hnames⟩ := List.append_inj' (htrail'.symm.trans hfront) rfl
    cases hnames
    rw [hstart', reach_append, hbase, Option.bind_some] at hdirectory
    exact ⟨hup, directory, hname, hdirectory, hkind'⟩
  by_cases hup : last = ['.', '.']
  · rw [if_pos hup] at hextension
    rw [hextension] at hleads
    have hsame : joined.withExtension "js" = joined :=
      Path.withExtension_of_up (by rw [hjoined, List.getLast?_concat, hup]) "js"
    rw [show (none : Option String).isNone = true from rfl, if_pos rfl, hsame] at hleads
    exact absurd hup (hlast hleads hstart hjoined).1
  · rw [if_neg hup] at hextension
    refine ⟨hup, ?_⟩
    obtain hplain | ⟨stem, extension, -, -, -, hsplit⟩ := Path.splitExtension_cases last
    · rw [hplain, Option.map_none] at hextension
      rw [hextension, show (none : Option String).isNone = true from rfl, if_pos rfl] at hleads
      have hname : (joined.withExtension "js").trail = _ :=
        Path.trail_withExtension hjoined hup (by decide) (by decide)
      have hstart' : t.startOf (joined.withExtension "js") = start := by
        rw [startOf, Path.isAbsolute_withExtension hjoined hup (by decide) (by decide)]
        exact hstart
      rw [hplain] at hname ⊢
      obtain ⟨-, directory, hplace, hdirectory⟩ := hlast hleads hstart' hname
      have hstep : Path.IsStep last :=
        Path.isStep_of_mem_trail (p := joined) (by rw [hjoined]; simp)
      exact ⟨rfl, directory, _, hplace, scriptName_js hstep.ne_nil hplain, hdirectory⟩
    · rw [hsplit, Option.map_some] at hextension
      rw [hextension, show (some (String.ofList extension)).isNone = false from rfl,
        if_neg Bool.false_ne_true] at hleads
      obtain ⟨-, directory, hplace, hdirectory⟩ := hlast hleads hstart hjoined
      refine ⟨?_, directory, last, hplace, rfl, hdirectory⟩
      rcases hg.extension ht hplace with hjs | hmjs
      · rw [hjs]
        decide
      · rw [hmjs]
        decide

variable (hplain : .normal "javascript" ∉ (⟨specifier⟩ : Path).components) {path : Path}
  (hpath : t.canonical path = .ok f.path) (base : Path)
include hplain hpath

omit hg hleads hplain in
/-- Where a module is looked for, as seen from a path to the importing
source: behind the directory of the source, unless the specifier is
absolute. -/
theorem resolve_eq :
    ∃ start steps, t.reach start steps
        = some (if (⟨specifier⟩ : Path).isAbsolute then [] else f.path.place.dropLast)
      ∧ t.kindAt? (if (⟨specifier⟩ : Path).isAbsolute then [] else f.path.place.dropLast)
        = some .directory
      ∧ ∃ q : Path, Layout.resolve {} base (some path) specifier
          = q.join (Layout.outputPath {} ⟨specifier⟩)
        ∧ ∀ x : Path, x.isAbsolute = (⟨specifier⟩ : Path).isAbsolute →
          t.startOf (q.join x) = start ∧ (q.join x).trail = steps ++ x.trail := by
  rw [hf.path] at hpath
  obtain ⟨q, hparent, hq, hkind⟩ := ht.exists_parent (ht.locate_of_canonical hf.kindAt hpath)
  obtain ⟨start, steps, hreach, hjoin⟩ := reach_join hq (⟨specifier⟩ : Path).isAbsolute
  refine ⟨start, steps, hreach, ?_, q, ?_, hjoin⟩
  · split
    · exact kindAt?_nil t
    · exact hkind
  · unfold Layout.resolve
    rw [Option.bind_some, hparent, Option.getD_some]

/-- **A module is looked for where its script is**, if its specifier takes a
step. -/
theorem leadsTo_resolve (hstep : (⟨specifier⟩ : Path).TakesStep) :
    t.LeadsTo (Layout.resolve {} base (some path) specifier) (scriptPlace g.path.place) := by
  obtain ⟨steps, last, htrail⟩ :=
    (List.eq_nil_or_concat' (⟨specifier⟩ : Path).trail).resolve_left
      ((Path.takesStep_iff _).1 hstep)
  obtain ⟨hup, hscript, directory, name, hplace, hname, hdirectory, hkind⟩ :=
    last_step_of_leads ht hf hg hleads htrail
  obtain ⟨hout, habsolute, hends⟩ := outputPath_of_trail hplain htrail hup hscript
  obtain ⟨start, before, hreach, -, q, hresolve, hjoin⟩ := resolve_eq ht hf hpath base
  obtain ⟨hstart, hjoined⟩ := hjoin _ habsolute
  rw [hout, ← List.append_assoc] at hjoined
  refine ⟨directory, scriptName last,
    ⟨⟨before ++ steps, ?_, ?_⟩, ?_, scriptName_ne_up last, hkind⟩, ?_⟩
  · rw [hresolve, hjoined]
  · rw [hresolve, hstart, reach_append, hreach, Option.bind_some, hdirectory]
  · rw [hresolve, Path.endsInStep_join, hends]
  · rw [hplace, scriptPlace_concat, String.toList_ofList, hname]

omit hg hleads in
/-- **A specifier that takes no step leads to no file**, but to a
directory. -/
theorem kind?_resolve_ne_file (hstep : ¬(⟨specifier⟩ : Path).TakesStep) {t' : FileTree}
    (hwithin : t.Within t') :
    t'.kind? (Layout.resolve {} base (some path) specifier) ≠ some .file := by
  have htrail := not_not.1 (mt (Path.takesStep_iff _).2 hstep)
  obtain ⟨hout, habsolute⟩ := outputPath_of_trail_eq_nil hplain htrail
  obtain ⟨start, before, hreach, hkind, q, hresolve, hjoin⟩ := resolve_eq ht hf hpath base
  obtain ⟨hstart, hjoined⟩ := hjoin _ habsolute
  rw [hout, List.append_nil] at hjoined
  intro hfile
  unfold FileTree.kind? at hfile
  split at hfile
  · next place kind hlocate =>
    cases hfile
    obtain ⟨hplace, hkind'⟩ := reach_trail_of_locate hlocate
    have hstart' : t'.startOf (q.join (Layout.outputPath {} ⟨specifier⟩)) = start := by
      rw [← hstart]
      unfold startOf
      rw [hwithin.current]
    rw [hresolve, hstart', hjoined, hwithin.reach_eq hreach] at hplace
    cases hplace
    rw [hwithin.kindAt _ _ hkind] at hkind'
    cases hkind'
  · cases hfile

end Import

end ScriptToShell
