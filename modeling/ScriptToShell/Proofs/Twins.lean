import ScriptToShell.Proofs.FileByFile
import ScriptToShell.Proofs.WrittenScripts

/-!
# Twins

The script of a source has the path of the source, below another directory,
with one extension in place of another. Since there are two extensions that
sources may have, two of them may come to the same script: `a.js` and `a.mjs`
do. Such sources are **twins** (`HasTwins`), and there is no other way for two
sources to have one script (`Project.FoundBelow.hasTwins_of_scriptPath_eq`).

A build says nothing about twins. It writes the script of the one over that
of the other, and succeeds (`twinSources_overwritten`). Without twins, every
source has a script of its own, and after a build it is found there
(`buildProject_outputs_apart_iff`).
-/

namespace ScriptToShell

open FileTree Shell

/-- **Paths among which there are twins**: two that differ in nothing but the
extension. -/
def HasTwins (paths : List Path) : Prop :=
  ∃ stem : String, ⟨stem ++ ".js"⟩ ∈ paths ∧ ⟨stem ++ ".mjs"⟩ ∈ paths

/-! ## Where twins are -/

/-- The place of a path with an ending: the ending is that of the last
name. -/
theorem Path.exists_place_append (stem : String) :
    ∃ (directory : List String) (name : List Char), ∀ ending : String,
      '/' ∉ ending.toList → 1 < ending.toList.length →
        (⟨stem ++ ending⟩ : Path).place = directory ++ [String.ofList (name ++ ending.toList)] := by
  obtain ⟨ss, s, hsegments⟩ := exists_segments_append stem.toList
  refine ⟨(ss.filter (!isIdle ·)).map String.ofList, s, fun ending hslash hlong => ?_⟩
  have hidle : isIdle (s ++ ending.toList) = false := by
    have hlength : 1 < (s ++ ending.toList).length := by
      rw [List.length_append]
      omega
    unfold isIdle
    refine Bool.or_eq_false_iff.2 ⟨decide_eq_false fun h => ?_, decide_eq_false fun h => ?_⟩
    all_goals
      rw [h] at hlength
      exact absurd hlength (by decide)
  rw [place, trail, trailOf, String.toList_append, hsegments _ hslash, List.filter_append,
    List.filter_cons_of_pos (by rw [hidle]; rfl), List.map_append]
  rfl

/-- An ending of a name is one of the path. -/
theorem FileTree.pathOf_concat_append (directory : List String) (name ending : String) :
    pathOf (directory ++ [name ++ ending])
      = ⟨(pathOf (directory ++ [name])).text ++ ending⟩ := by
  have hjoin : Text.joinWith "/" (directory ++ [name ++ ending])
      = Text.joinWith "/" (directory ++ [name]) ++ ending := by
    induction directory with
    | nil => rfl
    | cons first rest ih =>
      cases rest with
      | nil => exact (String.append_assoc ..).symm
      | cons second rest =>
        show first ++ "/" ++ Text.joinWith "/" (second :: rest ++ [name ++ ending]) = _
        rw [ih, ← String.append_assoc]
        rfl
  unfold pathOf
  rw [hjoin, String.append_assoc]

/-- The name of a source: a stem that is not empty, and one of two
extensions. -/
theorem SourceFile.FoundIn.exists_stem {t : FileTree} (ht : t.IsFileSystem) {f : SourceFile}
    (hf : f.FoundIn t) {directory : List String} {name : String}
    (hplace : f.path.place = directory ++ [name]) :
    ∃ stem : List Char, stem ≠ [] ∧ scriptName name.toList = stem ++ ['.', 's', 'h']
      ∧ (name = String.ofList stem ++ ".js" ∨ name = String.ofList stem ++ ".mjs") := by
  rw [← String.ofList_toList (s := name)] at hplace
  have hextension := hf.extension ht hplace
  obtain hplain | ⟨stem, extension, hne, -, hname, hsplit⟩ := Path.splitExtension_cases name.toList
  · rw [hplain] at hextension
    rcases hextension with h | h <;> cases h
  · refine ⟨stem, hne, by rw [scriptName, hsplit], ?_⟩
    rw [hsplit] at hextension
    refine hextension.imp (fun h => ?_) fun h => ?_
    all_goals
      rw [← String.toList_inj, hname, Option.some.inj h]
      simp

namespace Project.FoundBelow

variable {project : Project} {t : FileTree} {src out : Path} {root : List String}
  (h : project.FoundBelow t src root) (ht : t.IsFileSystem) {f g : SourceFile}
include h ht

/-- Twins have one script. -/
theorem scriptPath_of_twins (hf : f ∈ project.files) (hg : g ∈ project.files) {stem : String}
    (hjs : f.path = ⟨stem ++ ".js"⟩) (hmjs : g.path = ⟨stem ++ ".mjs"⟩) :
    scriptPath project.root out f.path = scriptPath project.root out g.path := by
  refine h.scriptPath_congr ht hf hg ?_
  obtain ⟨directory, name, hplace⟩ := Path.exists_place_append stem
  have hfplace := hplace ".js" (by decide) (by decide)
  have hgplace := hplace ".mjs" (by decide) (by decide)
  rw [← hjs] at hfplace
  rw [← hmjs] at hgplace
  have hne : name ≠ [] := by
    rintro rfl
    rcases (h.files f hf).1.extension ht hfplace with hnone | hnone <;> cases hnone
  have hscript : ∀ ending : List Char, '.' ∉ ending →
      scriptName (name ++ '.' :: ending) = name ++ ['.', 's', 'h'] := by
    intro ending hending
    rw [scriptName, Path.splitExtension_append name hending, if_neg hne]
  rw [hfplace, hgplace, scriptPlace_concat, scriptPlace_concat,
    String.toList_ofList (l := name ++ ".js".toList),
    String.toList_ofList (l := name ++ ".mjs".toList)]
  exact congrArg (fun name => directory ++ [String.ofList name])
    ((hscript ['j', 's'] (by decide)).trans (hscript ['m', 'j', 's'] (by decide)).symm)

/-- **Only twins have one script.** -/
theorem hasTwins_of_scriptPath_eq (hf : f ∈ project.files) (hg : g ∈ project.files)
    (hne : f.path ≠ g.path)
    (hscript : scriptPath project.root out f.path = scriptPath project.root out g.path) :
    HasTwins [f.path, g.path] := by
  have hfound := (h.files f hf).1
  have hfound' := (h.files g hg).1
  obtain ⟨names, name, names', name', hrest, hrest'⟩ :=
    (h.eq_or_below ht hf hg).resolve_left hne
  -- the steps to the scripts are the same
  obtain ⟨-, htrail, -⟩ := h.trail_scriptPath ht out hf hrest
  obtain ⟨-, htrail', -⟩ := h.trail_scriptPath ht out hg hrest'
  rw [hscript, htrail'] at htrail
  obtain ⟨hnames, hname⟩ := List.append_inj' (List.append_cancel_left htrail) rfl
  rw [(List.map_inj_right fun _ _ => String.toList_inj.1).1 hnames] at hrest'
  rw [← List.append_assoc] at hrest hrest'
  -- so the names of the sources have one stem
  obtain ⟨stem, -, hstem, hjs⟩ := hfound.exists_stem ht hrest.symm
  obtain ⟨stem', -, hstem', hjs'⟩ := hfound'.exists_stem ht hrest'.symm
  rw [List.singleton_inj, hstem, hstem'] at hname
  obtain rfl := List.append_cancel_right hname
  have hpath : ∀ {f : SourceFile} {ending : String}, f.FoundIn t →
      root ++ names ++ [String.ofList stem' ++ ending] = f.path.place →
      ⟨(pathOf (root ++ names ++ [String.ofList stem'])).text ++ ending⟩ = f.path := by
    intro f ending hf hplace
    rw [hf.path, ← hplace, pathOf_concat_append]
  have hfirst : ∀ {p q r : Path}, p = q → p ∈ [q, r] := fun heq => List.mem_cons.2 (.inl heq)
  have hsecond : ∀ {p q r : Path}, p = r → p ∈ [q, r] :=
    fun heq => List.mem_cons_of_mem _ (List.mem_singleton.2 heq)
  rcases hjs with rfl | rfl <;> rcases hjs' with rfl | rfl
  · exact absurd ((hpath hfound hrest).symm.trans (hpath hfound' hrest')) hne
  · exact ⟨_, hfirst (hpath hfound hrest), hsecond (hpath hfound' hrest')⟩
  · exact ⟨_, hsecond (hpath hfound' hrest'), hfirst (hpath hfound hrest)⟩
  · exact absurd ((hpath hfound hrest).symm.trans (hpath hfound' hrest')) hne

/-- **The scripts of sources are apart exactly if there are no twins.** -/
theorem nodup_scriptPath_iff {files : List SourceFile} (hknown : ∀ f ∈ files, f ∈ project.files)
    (hnodup : (files.map (·.path)).Nodup) :
    (files.map fun f => scriptPath project.root out f.path).Nodup
      ↔ ¬HasTwins (files.map (·.path)) := by
  constructor
  · rintro hapart ⟨stem, hjs, hmjs⟩
    obtain ⟨f, hf, hjs⟩ := List.mem_map.1 hjs
    obtain ⟨g, hg, hmjs⟩ := List.mem_map.1 hmjs
    obtain rfl : f = g := List.inj_on_of_nodup_map hapart hf hg
      (h.scriptPath_of_twins ht (hknown f hf) (hknown g hg) hjs hmjs)
    have htext := congrArg String.toList (Path.mk.inj (hjs.symm.trans hmjs))
    simp at htext
  · intro hnone
    refine List.Nodup.map_on (fun f hf g hg hscript => ?_) (List.Nodup.of_map _ hnodup)
    by_contra hne
    have hpaths : f.path ≠ g.path := fun heq => hne (List.inj_on_of_nodup_map hnodup hf hg heq)
    obtain ⟨stem, hjs, hmjs⟩ :=
      h.hasTwins_of_scriptPath_eq ht (hknown f hf) (hknown g hg) hpaths hscript
    have hsub : [f.path, g.path] ⊆ files.map (·.path) := by
      simp [List.mem_map_of_mem hf, List.mem_map_of_mem hg]
    exact hnone ⟨stem, hsub hjs, hsub hmjs⟩

end Project.FoundBelow

/-! ## What a build makes of twins -/

/-- **The scripts of a build are apart exactly if its sources have no twins.**
At the path of a script that is shared, the text is that of the last source
with this path; without twins, every source has its own text there. -/
theorem buildProject_outputs_apart_iff (t t' : FileTree) (src out : Path) (r : Request)
    (built : List BuiltModule) (ht : t.IsFileSystem) (hmode : r.mode = .emit)
    (hbuild : Yields (buildProject src out r) t built t') :
    ((built.map (·.output)).Nodup ↔ ¬HasTwins (built.map (·.source)))
      ∧ ∃ project modules, Yields (readProject src) t project t
        ∧ Yields (compileProject project out r) t modules t'
        ∧ built = modules.map (·.toBuiltModule) ∧ t.WrittenBy t' modules
        ∧ (¬HasTwins (built.map (·.source)) →
          ∀ m ∈ modules, t'.readText m.output = .ok m.text) := by
  unfold buildProject at hbuild
  obtain ⟨project, t₁, hread, hrest⟩ := yields_bind_iff.1 hbuild
  obtain ⟨modules, t₂, hcompile, hpure⟩ := yields_bind_iff.1 hrest
  obtain ⟨rfl, rfl⟩ := yields_pure_iff.1 hpure
  obtain rfl : t = t₁ := (moves_readProject src).of_yields hread
  obtain ⟨root, hbelow⟩ := exists_foundBelow ht hread
  obtain ⟨files, hknown, horder, hall⟩ :=
    (readFrom_of_yields ht.toWellFormed hread).exists_schedule hcompile
  have hbuilt := map_toBuiltModule_of_yields hall
  have hwritten := hbelow.writtenBy ht hmode hknown hall
  have hiff : ((modules.map (·.toBuiltModule)).map (·.output)).Nodup
      ↔ ¬HasTwins ((modules.map (·.toBuiltModule)).map (·.source)) := by
    rw [hbuilt, List.map_map, List.map_map]
    simp only [Function.comp_def]
    exact hbelow.nodup_scriptPath_iff ht hknown horder.nodup
  refine ⟨hiff, project, modules, hread, hcompile, rfl, hwritten, fun hnone m hm => ?_⟩
  obtain ⟨before, after, rfl⟩ := List.append_of_mem hm
  refine hwritten.texts before m after rfl fun m' hm' heq => ?_
  have hapart := hiff.2 hnone
  rw [List.map_map, List.map_append, List.map_cons] at hapart
  exact (List.nodup_cons.1 (List.nodup_append.1 hapart).2.1).1
    (List.mem_map.2 ⟨m', hm', heq⟩)

/-- The outcome of a build of sources below `/src`, once they have been read
and put in order: what is built, the text of each script, and the text that
is found at its path. -/
def builtTexts (sources : List (String × String × List Stmt)) :
    Option (List (BuiltModule × String × Except Refusal String)) :=
  match StateT.run (compileAll (m := StateM FileTree) ⟨"/src"⟩ ⟨"out"⟩ {} []
    (sourceProject sources).files).run (sourceTree sources) with
  | (.ok modules, t') => some (modules.map fun m => (m.toBuiltModule, m.text, t'.readText m.output))
  | _ => none

theorem exists_yields_of_builtTexts {sources : List (String × String × List Stmt)}
    {texts : List (BuiltModule × String × Except Refusal String)}
    (hread : Yields (readProject ⟨"src"⟩) (sourceTree sources) (sourceProject sources)
      (sourceTree sources))
    {order : List Path} (horder : (sourceProject sources).graph.order = .ok order)
    (hfiles : (sourceProject sources).filesAt order = (sourceProject sources).files)
    (htexts : builtTexts sources = some texts) :
    ∃ modules t', Yields (compileProject (sourceProject sources) ⟨"out"⟩ {}) (sourceTree sources)
        modules t'
      ∧ Yields (buildProject ⟨"src"⟩ ⟨"out"⟩ {}) (sourceTree sources)
        (modules.map (·.toBuiltModule)) t'
      ∧ modules.map (fun m => (m.toBuiltModule, m.text, t'.readText m.output)) = texts := by
  unfold builtTexts at htexts
  split at htexts
  · next modules t' hrun =>
    have hcompile : Yields (compileProject (sourceProject sources) ⟨"out"⟩ {}) (sourceTree sources)
        modules t' := by
      unfold Yields compileProject
      rw [horder]
      dsimp only
      rw [hfiles]
      exact hrun
    exact ⟨modules, t', hcompile, yields_bind_iff.2 ⟨_, _, hread,
      yields_bind_iff.2 ⟨_, _, hcompile, yields_pure_iff.2 ⟨rfl, rfl⟩⟩⟩, Option.some.inj htexts⟩
  · cases htexts

/-- Two sources, one of either extension. -/
def apartSources : List (String × String × List Stmt) :=
  [("a.js", "f();", [.expression (.call (.identifier "f" ⟨0, 1⟩) [] ⟨0, 3⟩) ⟨0, 4⟩]),
    ("b.mjs", "g();", [.expression (.call (.identifier "g" ⟨0, 1⟩) [] ⟨0, 3⟩) ⟨0, 4⟩])]

theorem apartSources_kept :
    (sourceTree apartSources).IsFileSystem
      ∧ ∃ built t', Yields (buildProject ⟨"src"⟩ ⟨"out"⟩ {}) (sourceTree apartSources) built t'
        ∧ built = [⟨⟨"/src/a.js"⟩, ⟨"out/a.sh"⟩⟩, ⟨⟨"/src/b.mjs"⟩, ⟨"out/b.sh"⟩⟩]
        ∧ ¬HasTwins (built.map (·.source))
        ∧ ∃ modules : List CompiledModule, built = modules.map (·.toBuiltModule)
          ∧ ∀ m ∈ modules, t'.readText m.output = .ok m.text := by
  have htree : (sourceTree apartSources).IsFileSystem := by decide +kernel
  have hread : Yields (readProject ⟨"src"⟩) (sourceTree apartSources)
      (sourceProject apartSources) (sourceTree apartSources) := by
    refine yields_readProject_sourceTree (by decide +kernel) (by decide +kernel)
      (by decide +kernel) (by decide +kernel) ?_
    unfold apartSources
    simp only [List.forall_mem_cons]
    exact ⟨rfl, rfl, nofun⟩
  have horder : (sourceProject apartSources).graph.order
      = .ok ((sourceProject apartSources).files.map (·.path)) := by
    rw [ImportGraph.order_eq_of_pairwise (by decide +kernel)]
    decide +kernel
  obtain ⟨modules, t', -, hbuild, htexts⟩ := exists_yields_of_builtTexts hread horder rfl
    (show builtTexts apartSources = some
      [(⟨⟨"/src/a.js"⟩, ⟨"out/a.sh"⟩⟩, "#!/usr/bin/env bash\n\nf\n",
          .ok "#!/usr/bin/env bash\n\nf\n"),
        (⟨⟨"/src/b.mjs"⟩, ⟨"out/b.sh"⟩⟩, "#!/usr/bin/env bash\n\ng\n",
          .ok "#!/usr/bin/env bash\n\ng\n")] by decide +kernel)
  have hbuilt : modules.map (·.toBuiltModule)
      = [⟨⟨"/src/a.js"⟩, ⟨"out/a.sh"⟩⟩, ⟨⟨"/src/b.mjs"⟩, ⟨"out/b.sh"⟩⟩] := by
    have hfirst := congrArg (List.map (·.1)) htexts
    rw [List.map_map] at hfirst
    exact hfirst
  obtain ⟨hiff, project, modules', -, -, heq, -, hown⟩ := buildProject_outputs_apart_iff
    (sourceTree apartSources) t' ⟨"src"⟩ ⟨"out"⟩ {} _ htree rfl hbuild
  have hnone := hiff.1 (by rw [hbuilt]; decide)
  exact ⟨htree, _, t', hbuild, hbuilt, hnone, modules', heq, hown hnone⟩

/-- The same two sources as twins. -/
def twinSources : List (String × String × List Stmt) :=
  [("a.js", "f();", [.expression (.call (.identifier "f" ⟨0, 1⟩) [] ⟨0, 3⟩) ⟨0, 4⟩]),
    ("a.mjs", "g();", [.expression (.call (.identifier "g" ⟨0, 1⟩) [] ⟨0, 3⟩) ⟨0, 4⟩])]

/-- **Twins are built over one another**, and the build succeeds. -/
theorem twinSources_overwritten :
    (sourceTree twinSources).IsFileSystem
      ∧ ∃ modules t', Yields (compileProject (sourceProject twinSources) ⟨"out"⟩ {})
          (sourceTree twinSources) modules t'
        ∧ Yields (buildProject ⟨"src"⟩ ⟨"out"⟩ {}) (sourceTree twinSources)
          (modules.map (·.toBuiltModule)) t'
        ∧ ¬(modules.map (·.output)).Nodup
        ∧ ∃ m ∈ modules, m.source = ⟨"/src/a.js"⟩ ∧ t'.readText m.output ≠ .ok m.text := by
  have hread : Yields (readProject ⟨"src"⟩) (sourceTree twinSources)
      (sourceProject twinSources) (sourceTree twinSources) := by
    refine yields_readProject_sourceTree (by decide +kernel) (by decide +kernel)
      (by decide +kernel) (by decide +kernel) ?_
    unfold twinSources
    simp only [List.forall_mem_cons]
    exact ⟨rfl, rfl, nofun⟩
  have horder : (sourceProject twinSources).graph.order
      = .ok ((sourceProject twinSources).files.map (·.path)) := by
    rw [ImportGraph.order_eq_of_pairwise (by decide +kernel)]
    decide +kernel
  obtain ⟨modules, t', hcompile, hbuild, htexts⟩ := exists_yields_of_builtTexts hread horder rfl
    (show builtTexts twinSources = some
      [(⟨⟨"/src/a.js"⟩, ⟨"out/a.sh"⟩⟩, "#!/usr/bin/env bash\n\nf\n",
          .ok "#!/usr/bin/env bash\n\ng\n"),
        (⟨⟨"/src/a.mjs"⟩, ⟨"out/a.sh"⟩⟩, "#!/usr/bin/env bash\n\ng\n",
          .ok "#!/usr/bin/env bash\n\ng\n")] by decide +kernel)
  refine ⟨by decide +kernel, modules, t', hcompile, hbuild, ?_, ?_⟩
  · have houtputs := congrArg (List.map (·.1.output)) htexts
    rw [List.map_map] at houtputs
    rw [show modules.map (·.output) = [⟨"out/a.sh"⟩, ⟨"out/a.sh"⟩] from houtputs]
    decide
  · obtain ⟨m, hm, hrow⟩ := List.mem_map.1 (htexts ▸ List.mem_cons_self)
    obtain ⟨hmodule, htext, hleft⟩ := (Prod.mk.inj hrow).imp id Prod.mk.inj
    refine ⟨m, hm, by rw [hmodule], ?_⟩
    rw [hleft, htext]
    decide

end ScriptToShell
