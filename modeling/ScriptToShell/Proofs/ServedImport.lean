import ScriptToShell.Proofs.Parallel
import ScriptToShell.Proofs.WrittenScripts

/-!
# Where the text of an import comes from

A build puts its sources in the order of the imports at the outermost level,
but an import may stand anywhere. Whether the text of an imported source is
that of the build or one that was there before depends on that order. This
module follows a build from source to source and shows which of the two it
is (`buildProject_serves_before`): the source that comes before the one that
imports it has its text from the build. This holds of every import at the
outermost level, and for the others it is a matter of luck. An import inside
a block may ask for a source that the build has yet to come to, and then the
build looks for a script it has not made (`laterSource_not_served`).

A build under way is a state (`Progress`), and one source is compiled in a
step from one state to the next (`Progress.Step`). The invariant of the steps
is that the texts at hand are those of the sources before, and that the tree
has grown from the one the sources were read from.
-/

namespace ScriptToShell

open Emit Emission FileTree Shell

/-! ## A build under way -/

/-- **A build under way**: the tree as it is, the texts of the sources that
are done, the latest one first, and the sources that are still to come. -/
structure Progress where
  /-- The tree. -/
  tree : FileTree
  /-- The texts of the sources that are done. -/
  texts : List (Path × String)
  /-- The sources that are still to come. -/
  pending : List SourceFile

namespace Progress

/-- The text that the build has made of a source. -/
def textOf? (s : Progress) (g : SourceFile) : Option String :=
  (s.texts.find? (·.1 = g.path)).map (·.2)

/-- **One source is compiled.** -/
def Step (root out : Path) (r : Request) (s s' : Progress) : Prop :=
  ∃ f text m, s.pending = f :: s'.pending ∧ s'.texts = (f.path, text) :: s.texts
    ∧ Yields (compileStep root out r s.texts f) s.tree (text, m) s'.tree

/-- **What is known of a build under way**: which sources are done, and that
their texts are at hand. -/
structure Underway (t : FileTree) (files : List SourceFile) (s : Progress)
    (done : List SourceFile) : Prop where
  /-- Sources are compiled in their order. -/
  split : done ++ s.pending = files
  /-- The texts are those of the sources that are done. -/
  texts : s.texts.map (·.1) = (done.map (·.path)).reverse
  /-- The tree has grown. -/
  within : t.Within s.tree

variable {root out : Path} {r : Request} {t : FileTree} {files done : List SourceFile}
  {s s' : Progress}

theorem Underway.step (h : s.Underway t files done) (hstep : Step root out r s s') :
    ∃ f, s'.Underway t files (done ++ [f]) := by
  obtain ⟨f, text, m, hpending, htexts, hyields⟩ := hstep
  have hadds : Adds (compileAll (m := StateM FileTree) root out r s.texts [f]).run :=
    moves_compileAll (fun _ path text => adds_writeScript path text r.executable) root out s.texts
      [f]
  have hone : Yields (compileAll root out r s.texts [f]) s.tree [m] s'.tree :=
    yields_compileAll_cons_iff.2
      ⟨text, m, s'.tree, [], hyields, yields_pure_iff.2 ⟨rfl, rfl⟩, rfl⟩
  refine ⟨f, ?_, ?_, h.within.trans (hone.within hadds)⟩
  · rw [List.append_assoc, List.singleton_append, ← hpending, h.split]
  · rw [htexts, List.map_cons, h.texts]
    simp

/-- **A build knows which sources are done**, at any time. -/
theorem exists_underway
    (h : Relation.ReflTransGen (Step root out r) ⟨t, [], files⟩ s) :
    ∃ done, s.Underway t files done := by
  induction h with
  | refl => exact ⟨[], rfl, rfl, .refl t⟩
  | tail _ hstep ih =>
    obtain ⟨done, hdone⟩ := ih
    obtain ⟨f, hnext⟩ := hdone.step hstep
    exact ⟨done ++ [f], hnext⟩

/-- The text of a source is at hand exactly if it is done. -/
theorem Underway.textOf?_isSome_iff (h : s.Underway t files done) (g : SourceFile) :
    (s.textOf? g).isSome = true ↔ g.path ∈ done.map (·.path) := by
  rw [← List.mem_reverse, ← h.texts]
  unfold textOf?
  rw [Option.isSome_map, List.find?_isSome]
  simp

/-- **A build that stops at a fault** has come to the source that has it. -/
theorem exists_fault_of_fails {failure : Failure} {t' : FileTree}
    (h : Fails (compileAll root out r s.texts s.pending) s.tree failure t')
    (hwrites : ¬failure.IsOfWriting) :
    ∃ s' f rest fault, Relation.ReflTransGen (Step root out r) s s' ∧ s'.pending = f :: rest
      ∧ f.program.chunks (s'.tree.buildSetting root s'.texts r.options f) = .error fault
      ∧ failure = .faulty fault f.source := by
  obtain ⟨tree, texts, pending⟩ := s
  induction pending generalizing tree texts with
  | nil => exact absurd h (not_fails_pure _)
  | cons f rest ih =>
    dsimp only at h
    rw [compileAll_cons] at h
    obtain hstep | ⟨⟨text, m⟩, t₁, hstep, hrest⟩ := fails_bind_iff.1 h
    · obtain ⟨w, fault, hw, hfault, rfl, rfl⟩ := fails_compileStep hstep hwrites
      have hsees := reads_settingFor (reads_builtText root texts f.path) r.options f.program
      obtain rfl := (Prod.mk.inj ((hsees tree).symm.trans hw)).1
      exact ⟨_, f, rest, fault, .refl, rfl, hfault, rfl⟩
    · obtain hrest | ⟨_, _, -, hpure⟩ := fails_bind_iff.1 hrest
      · obtain ⟨s', f', rest', fault, hreach, hpending, hfault⟩ := ih t₁ _ hrest
        exact ⟨s', f', rest', fault, .head ⟨f, text, m, rfl, rfl, hstep⟩ hreach, hpending, hfault⟩
      · exact absurd hpure (not_fails_pure _)

end Progress

/-! ## Modules that are not found -/

/-- Outcomes that are equal, and that miss a module only if a setting does. -/
def MissesOnlyIn (w : Setting) (α : Type) (x y : Except Fault α) : Prop :=
  x = y ∧ ∀ specifier path, x = .error (.moduleNotFound specifier path) →
    ∃ source, w.modules source = .error (.moduleNotFound specifier path)

/-- The one run of a setting, beside itself. -/
theorem parallel_missesOnlyIn (w : Setting) :
    Parallel (fun _ s s' => s = s') (MissesOnlyIn w) w w where
  ok _ := ⟨rfl, nofun⟩
  bind := by
    rintro α β x y f g ⟨rfl, hx⟩ hfg
    cases x with
    | ok a => exact hfg a
    | error fault => exact ⟨rfl, fun specifier path h => hx specifier path (by cases h; rfl)⟩
  fault := by
    rintro α kind detail s s' rfl
    exact ⟨rfl, nofun⟩
  operator := by
    rintro op s s' rfl
    refine ⟨rfl, fun specifier path h => ?_⟩
    obtain ⟨text, htext⟩ | ⟨name, hname⟩ := Emit.arithmeticOperator_cases op w.options.target
    · rw [htext] at h
      cases h
    · rw [hname] at h
      cases h
  modules source := ⟨rfl, fun _ _ h => ⟨source, h⟩⟩
  indent := rfl

/-- **A module that a program misses is one that it imports**, and is missing in
its setting. -/
theorem Program.misses_of_chunks {w : Setting} {p : Program} {specifier : String} {path : Path}
    (h : p.chunks w = .error (.moduleNotFound specifier path)) :
    ∃ source ∈ p.imports, w.modules source = .error (.moduleNotFound specifier path) := by
  have halike : p.Alike (fun _ s s' => s = s') p :=
    Program.alike_self (fun _ => rfl) fun _ _ _ _ _ _ _ _ => rfl
  -- a setting that has any other module fails the same way
  let w' : Setting :=
    { w with modules := fun source => if source ∈ p.imports then w.modules source else .ok "" }
  have hoptions : w'.options = w.options := rfl
  rw [Program.chunks_congr hoptions fun _ hsource => if_pos hsource] at h
  obtain ⟨source, hmisses⟩ :=
    (Program.chunks_parallel (parallel_missesOnlyIn w') halike).2 specifier path h
  by_cases hsource : source ∈ p.imports
  · exact ⟨source, hsource, (if_pos hsource).symm.trans hmisses⟩
  · cases (if_neg hsource).symm.trans hmisses

namespace FileTree

/-- What is not found is what was asked for. -/
theorem specifier_of_moduleText {t : FileTree} {base path : Path} {importer : Option Path}
    {source specifier : String}
    (h : t.moduleText {} base importer source = .error (.moduleNotFound specifier path)) :
    specifier = source := by
  unfold moduleText at h
  dsimp only at h
  split at h
  · split at h <;> cases h
  · cases h
    rfl

theorem specifier_of_builtText {t : FileTree} {root importer path : Path}
    {texts : List (Path × String)} {source specifier : String}
    (h : t.builtText root texts importer source = .error (.moduleNotFound specifier path)) :
    specifier = source := by
  unfold builtText at h
  split at h
  · cases h
  · exact specifier_of_moduleText h

/-- A source misses what it asks for. -/
theorem specifier_of_buildSetting {t : FileTree} {root path : Path} {texts : List (Path × String)}
    {options : Options} {f : SourceFile} {source specifier : String}
    (hsource : source ∈ f.program.imports)
    (h : (t.buildSetting root texts options f).modules source
      = .error (.moduleNotFound specifier path)) : specifier = source := by
  unfold buildSetting at h
  dsimp only at h
  rw [fetched_map hsource] at h
  exact specifier_of_builtText h

end FileTree

/-! ## Sources that are served -/

/-- One source comes before another in an order. -/
def SourceFile.Before (order : List Path) (g f : SourceFile) : Prop :=
  order.idxOf g.path < order.idxOf f.path

/-- A place where one source comes next tells those that come before it. -/
theorem SourceFile.before_iff {order : List Path} {before after : List SourceFile}
    {f g : SourceFile} (hnodup : order.Nodup)
    (hsplit : (before ++ f :: after).map (·.path) = order) :
    g.Before order f ↔ g.path ∈ before.map (·.path) := by
  subst hsplit
  rw [List.map_append, List.map_cons] at hnodup ⊢
  have hfresh : f.path ∉ before.map (·.path) := fun hmem =>
    (List.nodup_append.1 hnodup).2.2 _ hmem _ List.mem_cons_self rfl
  unfold Before
  rw [List.idxOf_append_of_notMem hfresh, List.idxOf_cons_self, Nat.add_zero]
  constructor
  · intro hlt
    by_contra hmem
    rw [List.idxOf_append_of_notMem hmem] at hlt
    exact Nat.not_lt.2 (Nat.le_add_right _ _) hlt
  · intro hmem
    rw [List.idxOf_append_of_mem hmem]
    exact List.idxOf_lt_length_iff.2 hmem

namespace Project

variable {project : Project} {t : FileTree} {out : Path} {r : Request} {order : List Path}
  {s : Progress} {f g : SourceFile} {source : String}

/-- **A build that has come to a source**: the sources before it in the order
have been compiled. -/
structure ComesTo (project : Project) (out : Path) (r : Request) (t : FileTree) (order : List Path)
    (s : Progress) (f : SourceFile) : Prop where
  /-- The build has come to a state. -/
  reached : Relation.ReflTransGen (Progress.Step project.root out r)
    ⟨t, [], project.filesAt order⟩ s
  /-- The source is next. -/
  next : ∃ rest, s.pending = f :: rest

section Served

variable (hread : project.ReadFrom t) (horder : project.graph.order = .ok order)
  (hcomes : project.ComesTo out r t order s f)
include hread horder hcomes

/-- Behind a source to come are those that it comes before. -/
theorem ComesTo.exists_done :
    ∃ done rest, s.Underway t (project.filesAt order) done ∧ s.pending = f :: rest
      ∧ (∀ h ∈ done ++ f :: rest, h ∈ project.files)
      ∧ project.graph.Scheduled ((done ++ f :: rest).map (·.path))
      ∧ ∀ g : SourceFile, g.Before order f ↔ g.path ∈ done.map (·.path) := by
  obtain ⟨done, hdone⟩ := Progress.exists_underway hcomes.reached
  obtain ⟨rest, hnext⟩ := hcomes.next
  obtain ⟨hscheduled, -⟩ := hread.isMap.scheduled_of_order horder
  have hsplit := hdone.split
  rw [hnext] at hsplit
  have hpaths : (done ++ f :: rest).map (·.path) = order := by
    rw [hsplit]
    exact map_path_filesAt hscheduled.subset_modules
  refine ⟨done, rest, hdone, hnext, ?_, hpaths ▸ hscheduled, fun g =>
    SourceFile.before_iff hscheduled.nodup hpaths⟩
  rw [hsplit]
  exact fun h hh => mem_of_mem_filesAt hh

/-- **A source that comes before is served by the build.** -/
theorem ComesTo.served_of_before (hsource : source ∈ f.program.imports)
    (hleads : t.sourceOf? f.path source = some g.path) (hbefore : g.Before order f) :
    ∃ text, s.textOf? g = some text
      ∧ (s.tree.buildSetting project.root s.texts r.options f).modules source = .ok text := by
  obtain ⟨done, rest, hdone, -, -, -, hiff⟩ := hcomes.exists_done hread horder
  obtain ⟨text, htext⟩ := Option.isSome_iff_exists.1
    ((hdone.textOf?_isSome_iff g).2 ((hiff g).1 hbefore))
  refine ⟨text, htext, buildSetting_modules hdone.within hsource hleads ?_⟩
  obtain ⟨⟨path, text'⟩, hfind, rfl⟩ := Option.map_eq_some_iff.1 htext
  have hpath : path = g.path := by simpa using List.find?_some hfind
  rw [hfind, hpath]

/-- **A source that does not come before is looked for in the tree.** -/
theorem ComesTo.sought_of_not_before (hsource : source ∈ f.program.imports)
    (hleads : t.sourceOf? f.path source = some g.path) (hbefore : ¬g.Before order f) :
    s.textOf? g = none
      ∧ (s.tree.buildSetting project.root s.texts r.options f).modules source
        = s.tree.moduleText {} project.root (some f.path) source := by
  obtain ⟨done, rest, hdone, -, -, -, hiff⟩ := hcomes.exists_done hread horder
  have hnone : s.textOf? g = none := by
    rw [← Option.not_isSome_iff_eq_none, hdone.textOf?_isSome_iff g, ← hiff g]
    exact hbefore
  refine ⟨hnone, ?_⟩
  unfold FileTree.buildSetting
  dsimp only
  rw [fetched_map hsource]
  unfold FileTree.builtText
  rw [hdone.within.sourceOf?_eq hleads]
  dsimp only [Option.bind_some]
  rw [Option.map_eq_none_iff.1 hnone]

/-- **What is imported at the outermost level comes before.** -/
theorem ComesTo.before_of_outer (hg : g ∈ project.files) (houter : source ∈ f.program.outerImports)
    (hleads : t.sourceOf? f.path source = some g.path) : g.Before order f := by
  obtain ⟨done, rest, -, -, hknown, hscheduled, hiff⟩ := hcomes.exists_done hread horder
  obtain ⟨stmt, hstmt, himport⟩ := List.mem_filterMap.1 houter
  split at himport
  · cases himport
    exact (hiff g).2 (List.mem_map_of_mem
      (mem_done_of_leads hread hknown hscheduled hg hstmt hleads))
  · cases himport

end Served

end Project

/-- **A build serves what comes before.** When a build comes to a source, and
an import in it, wherever it stands, leads to a source of the directory, there
are two cases. The imported source comes before in the order of the build:
then what is spliced in is the text that this build has made of it. It does
not: then the import is none at the outermost level, this build has no text
for it yet, and one is looked for in the tree. So a build that fails because a
module is not found fails for an import of the second kind, or for one that
does not lead to a source of the directory. -/
theorem buildProject_serves_before (t : FileTree) (ht : t.WellFormed) (src out : Path) (r : Request)
    (project : Project) (order : List Path) (hread : Yields (readProject src) t project t)
    (horder : project.graph.order = .ok order) :
    (∀ s f, project.ComesTo out r t order s f → ∀ source ∈ f.program.imports,
        ∀ g ∈ project.files, t.sourceOf? f.path source = some g.path →
      let w := s.tree.buildSetting project.root s.texts r.options f
      (g.Before order f ∧ ∃ text, s.textOf? g = some text
          ∧ ∀ span n, outcome ((Stmt.importModule source span).emit w) n = .ok (spliced text))
        ∨ (¬g.Before order f ∧ source ∉ f.program.outerImports ∧ s.textOf? g = none
          ∧ w.modules source = s.tree.moduleText {} project.root (some f.path) source))
    ∧ ∀ specifier path source t', Fails (buildProject src out r) t
        (.faulty (.moduleNotFound specifier path) source) t' →
      ∃ s f, project.ComesTo out r t order s f ∧ f.source = source
        ∧ specifier ∈ f.program.imports
        ∧ ∀ g ∈ project.files, t.sourceOf? f.path specifier = some g.path →
          ¬g.Before order f ∧ specifier ∉ f.program.outerImports := by
  have hfrom := readFrom_of_yields ht hread
  refine ⟨fun s f hcomes source hsource g hg hleads => ?_,
    fun specifier path source t' hfails => ?_⟩
  · dsimp only
    by_cases hbefore : g.Before order f
    · obtain ⟨text, htext, hmodules⟩ :=
        hcomes.served_of_before hfrom horder hsource hleads hbefore
      refine .inl ⟨hbefore, text, htext, fun span n => ?_⟩
      rw [Stmt.outcome_importModule, hmodules]
      rfl
    · obtain ⟨hnone, hmodules⟩ := hcomes.sought_of_not_before hfrom horder hsource hleads hbefore
      exact .inr ⟨hbefore, fun houter => hbefore (hcomes.before_of_outer hfrom horder hg houter
        hleads), hnone, hmodules⟩
  · unfold buildProject at hfails
    obtain hnoread | ⟨project', t₁, hread', hrest⟩ := fails_bind_iff.1 hfails
    · cases hnoread.symm.trans hread
    · obtain ⟨rfl, rfl⟩ := hread.unique hread'
      obtain hcompile | ⟨_, _, -, hpure⟩ := fails_bind_iff.1 hrest
      · unfold compileProject at hcompile
        rw [horder] at hcompile
        obtain ⟨s, f, rest, fault, hreach, hnext, hfault, heq⟩ := Progress.exists_fault_of_fails
          (s := ⟨t₁, [], project'.filesAt order⟩) hcompile id
        obtain ⟨rfl, rfl⟩ := Failure.faulty.inj heq
        have hcomes : project'.ComesTo out r t₁ order s f := ⟨hreach, rest, hnext⟩
        -- what the source misses is not at hand, so it is none that comes before
        obtain ⟨source, hmem, hmisses⟩ := Program.misses_of_chunks hfault
        obtain rfl := FileTree.specifier_of_buildSetting hmem hmisses
        refine ⟨s, f, hcomes, rfl, hmem, fun g hg hleads => ?_⟩
        have hbefore : ¬g.Before order f := by
          intro hbefore
          obtain ⟨text, -, hmodules⟩ := hcomes.served_of_before hfrom horder hmem hleads hbefore
          cases hmisses.symm.trans hmodules
        exact ⟨hbefore, fun houter =>
          hbefore (hcomes.before_of_outer hfrom horder hg houter hleads)⟩
      · exact absurd hpure (not_fails_pure _)

/-- A source, and one that imports it inside a block. -/
def earlierSources : List (String × String × List Stmt) :=
  [("a.js", "f();", [.expression (.call (.identifier "f" ⟨0, 1⟩) [] ⟨0, 3⟩) ⟨0, 4⟩]),
    ("b.js", "\x7bimport './a';\x7d", [.block [.importModule "./a" ⟨1, 14⟩] ⟨0, 15⟩])]

/-- The text that a build of these sources makes of the first one. -/
def earlierText : Option String :=
  match StateT.run
      (compileStep ⟨"/src"⟩ ⟨"out"⟩ {} [] (sourceProject earlierSources).files.head!).run
      (sourceTree earlierSources) with
  | (.ok (text, _), _) => some text
  | _ => none

theorem earlierSource_served :
    (sourceTree earlierSources).WellFormed
      ∧ Yields (readProject ⟨"src"⟩) (sourceTree earlierSources) (sourceProject earlierSources)
        (sourceTree earlierSources)
      ∧ ∃ order, (sourceProject earlierSources).graph.order = .ok order
        ∧ ∃ s f, (sourceProject earlierSources).ComesTo ⟨"out"⟩ {} (sourceTree earlierSources) order
            s f
          ∧ "./a" ∈ f.program.imports ∧ "./a" ∉ f.program.outerImports
          ∧ ∃ g ∈ (sourceProject earlierSources).files, f ≠ g
            ∧ (sourceTree earlierSources).sourceOf? f.path "./a" = some g.path
            ∧ s.textOf? g = some "f\n"
            ∧ ∀ span n, outcome ((Stmt.importModule "./a" span).emit
              (s.tree.buildSetting ⟨"/src"⟩ s.texts {} f)) n = .ok (spliced "f\n") := by
  have htree : (sourceTree earlierSources).WellFormed := by decide +kernel
  have hread : Yields (readProject ⟨"src"⟩) (sourceTree earlierSources)
      (sourceProject earlierSources) (sourceTree earlierSources) := by
    refine yields_readProject_sourceTree (by decide +kernel) (by decide +kernel)
      (by decide +kernel) (by decide +kernel) ?_
    unfold earlierSources
    simp only [List.forall_mem_cons]
    exact ⟨rfl, rfl, nofun⟩
  have horder : (sourceProject earlierSources).graph.order
      = .ok [⟨"/src/a.js"⟩, ⟨"/src/b.js"⟩] := by
    rw [ImportGraph.order_eq_of_pairwise (by decide +kernel)]
    decide +kernel
  have hleads : (sourceTree earlierSources).sourceOf? ⟨"/src/b.js"⟩ "./a" = some ⟨"/src/a.js"⟩ := by
    decide +kernel
  have htext : earlierText = some "f\n" := by decide +kernel
  unfold earlierText at htext
  split at htext
  · next text m t' hstep =>
    obtain rfl := Option.some.inj htext
    have hcomes : (sourceProject earlierSources).ComesTo ⟨"out"⟩ {} (sourceTree earlierSources)
        [⟨"/src/a.js"⟩, ⟨"/src/b.js"⟩]
        ⟨t', [(⟨"/src/a.js"⟩, "f\n")], [(sourceProject earlierSources).files.getLast!]⟩
        (sourceProject earlierSources).files.getLast! :=
      ⟨.single ⟨_, "f\n", m, rfl, rfl, hstep⟩, [], rfl⟩
    refine ⟨htree, hread, _, horder, _, _, hcomes, by decide +kernel, by decide +kernel,
      (sourceProject earlierSources).files.head!, List.mem_cons_self,
      fun heq => absurd (congrArg SourceFile.path heq) (by decide +kernel), hleads, rfl, ?_⟩
    obtain ⟨-, text, hown, hserved⟩ | ⟨-, -, hnone, -⟩ :=
      (buildProject_serves_before (sourceTree earlierSources) htree ⟨"src"⟩ ⟨"out"⟩ {}
        (sourceProject earlierSources) _ hread horder).1 _ _ hcomes "./a" (by decide +kernel)
        (sourceProject earlierSources).files.head! List.mem_cons_self hleads
    · cases hown
      exact hserved
    · cases hnone
  · cases htext

/-- **A source imports another one**, anywhere. -/
def Project.ImportsAnywhere (project : Project) (t : FileTree) (f g : SourceFile) : Prop :=
  f ∈ project.files ∧ g ∈ project.files
    ∧ ∃ source ∈ f.program.imports, t.sourceOf? f.path source = some g.path

/-- The same two sources, but now the one that is imported comes later. -/
def laterSources : List (String × String × List Stmt) :=
  [("a.js", "\x7bimport './b';\x7d", [.block [.importModule "./b" ⟨1, 14⟩] ⟨0, 15⟩]),
    ("b.js", "f();", [.expression (.call (.identifier "f" ⟨0, 1⟩) [] ⟨0, 3⟩) ⟨0, 4⟩])]

/-- The module that a build of these sources misses. -/
def laterOutcome : Option String :=
  match StateT.run (compileAll (m := StateM FileTree) ⟨"/src"⟩ ⟨"out"⟩ {} []
    (sourceProject laterSources).files).run (sourceTree laterSources) with
  | (.error (.faulty (.moduleNotFound specifier _) _), _) => some specifier
  | _ => none

/-- **A source that comes later is not served.** There is no circle among the
imports, wherever they stand, and the build does not find a module that is one
of its sources. -/
theorem laterSource_not_served :
    (sourceTree laterSources).IsFileSystem
      ∧ Yields (readProject ⟨"src"⟩) (sourceTree laterSources) (sourceProject laterSources)
        (sourceTree laterSources)
      ∧ (∀ f, ¬Relation.TransGen
        ((sourceProject laterSources).ImportsAnywhere (sourceTree laterSources)) f f)
      ∧ (∃ f ∈ (sourceProject laterSources).files, ∃ g ∈ (sourceProject laterSources).files, f ≠ g
        ∧ "./b" ∈ f.program.imports
        ∧ (sourceTree laterSources).sourceOf? f.path "./b" = some g.path)
      ∧ ∃ path source t', Fails (buildProject ⟨"src"⟩ ⟨"out"⟩ {}) (sourceTree laterSources)
        (.faulty (.moduleNotFound "./b" path) source) t' := by
  have hread : Yields (readProject ⟨"src"⟩) (sourceTree laterSources)
      (sourceProject laterSources) (sourceTree laterSources) := by
    refine yields_readProject_sourceTree (by decide +kernel) (by decide +kernel)
      (by decide +kernel) (by decide +kernel) ?_
    unfold laterSources
    simp only [List.forall_mem_cons]
    exact ⟨rfl, rfl, nofun⟩
  have horder : (sourceProject laterSources).graph.order
      = .ok [⟨"/src/a.js"⟩, ⟨"/src/b.js"⟩] := by
    rw [ImportGraph.order_eq_of_pairwise (by decide +kernel)]
    decide +kernel
  refine ⟨by decide +kernel, hread, ?_, ?_, ?_⟩
  · have hedge : ∀ f g,
        (sourceProject laterSources).ImportsAnywhere (sourceTree laterSources) f g →
          f.path = ⟨"/src/a.js"⟩ ∧ g.path = ⟨"/src/b.js"⟩ := by
      rintro f g ⟨hf, -, source, hsource, hleads⟩
      have hall : ∀ f ∈ (sourceProject laterSources).files, ∀ source ∈ f.program.imports,
          f.path = ⟨"/src/a.js"⟩
            ∧ (sourceTree laterSources).sourceOf? f.path source = some ⟨"/src/b.js"⟩ := by
        decide +kernel
      obtain ⟨hfrom, hto⟩ := hall f hf source hsource
      exact ⟨hfrom, Option.some.inj (hleads.symm.trans hto)⟩
    intro f hcircle
    obtain ⟨g, hfirst, -⟩ := Relation.TransGen.head'_iff.1 hcircle
    obtain ⟨h, -, hlast⟩ := Relation.TransGen.tail'_iff.1 hcircle
    exact absurd ((hedge f g hfirst).1.symm.trans (hedge h f hlast).2) (by decide)
  · exact ⟨(sourceProject laterSources).files.head!, List.mem_cons_self,
      (sourceProject laterSources).files.getLast!, List.mem_cons_of_mem _ List.mem_cons_self,
      fun heq => absurd (congrArg SourceFile.path heq) (by decide +kernel), by decide +kernel,
      by decide +kernel⟩
  · have hmisses : laterOutcome = some "./b" := by decide +kernel
    unfold laterOutcome at hmisses
    split at hmisses
    · next specifier path source t' hrun =>
      obtain rfl := Option.some.inj hmisses
      refine ⟨path, source, t', fails_bind_iff.2 (.inr ⟨_, _, hread, fails_bind_iff.2 (.inl ?_)⟩)⟩
      unfold compileProject
      rw [horder]
      exact hrun
    · cases hmisses

end ScriptToShell
