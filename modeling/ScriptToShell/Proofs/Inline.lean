import ScriptToShell.Build.Project
import ScriptToShell.Proofs.Splice

/-!
# Inlining

A build never puts programs together, it puts texts together. What it
should come to is **inlining**: a program in which each import at the
outermost level is replaced by the statements of the imported program,
inlined in turn (`Project.Inlines`).

Texts and statements are compared by their **code lines**, the lines that
are neither blank nor an interpreter line. That an import contributes the
code lines of what is imported is known from splicing. What is left is
that statements that import nothing are written alike whatever the
modules are (`Stmt.emit_congr`), since inlining moves a statement from one
module into another.

`Project.Stands` puts the two together. It says of the chunks of a module
that inlining gives the same code, and it is built up statement by
statement, from what stands for the modules imported.
-/

namespace ScriptToShell

open Emit Emission Text Shell

/-! ## Code lines -/

namespace Shell

/-- The lines that are not blank. -/
def code (lines : List (List Char)) : List (List Char) := lines.filter (!allBlank ·)

/-- Lines without an interpreter line before them. -/
def withoutInterpreter : List (List Char) → List (List Char)
  | [] => []
  | line :: lines => if ['#', '!'].isPrefixOf line then lines else line :: lines

/-- **The code lines of a script**: its lines without the blank ones and
the interpreter line. -/
def codeLines (text : String) : List String :=
  (code (withoutInterpreter (pieces text.toList))).map String.ofList

/-- The code lines of chunks. -/
def chunksCode (chunks : List String) : List (List Char) :=
  code (chunks.flatMap fun chunk => pieces chunk.toList)

@[simp] theorem chunksCode_nil : chunksCode [] = [] := rfl

theorem chunksCode_append (chunks chunks' : List String) :
    chunksCode (chunks ++ chunks') = chunksCode chunks ++ chunksCode chunks' := by
  unfold chunksCode code
  rw [List.flatMap_append, List.filter_append]

theorem chunksCode_cons (chunk : String) (chunks : List String) :
    chunksCode (chunk :: chunks) = code (pieces chunk.toList) ++ chunksCode chunks := by
  unfold chunksCode code
  rw [List.flatMap_cons, List.filter_append]

/-- Empty lines are no code. -/
theorem code_dropEmptyEnd (lines : List (List Char)) : code (dropEmptyEnd lines) = code lines := by
  obtain ⟨⟨n, hn⟩, -⟩ := dropEmptyEnd_spec lines
  have hempty : code (List.replicate n []) = [] :=
    List.filter_eq_nil_iff.2 fun line hline => by
      rw [List.eq_of_mem_replicate hline]
      decide
  calc code (dropEmptyEnd lines)
      = code (dropEmptyEnd lines) ++ code (List.replicate n []) := by
        rw [hempty, List.append_nil]
    _ = code (dropEmptyEnd lines ++ List.replicate n []) := (List.filter_append ..).symm
    _ = code lines := by rw [← hn]

/-- Chunks that are empty have no code. -/
theorem chunksCode_filter (chunks : List String) :
    chunksCode (chunks.filter (· ≠ "")) = chunksCode chunks := by
  induction chunks with
  | nil => rfl
  | cons chunk chunks ih =>
    by_cases hempty : chunk = ""
    · rw [List.filter_cons_of_neg (by simp [hempty]), ih, chunksCode_cons, hempty]
      rfl
    · rw [List.filter_cons_of_pos (by simpa using hempty), chunksCode_cons, chunksCode_cons, ih]

/-- **A layout has the code of its chunks.** -/
theorem code_joinChunks (chunks : List String) :
    code (pieces (joinChunks chunks).toList) = chunksCode chunks := by
  have hlaid : code (laidOut chunks) = chunksCode chunks := by
    unfold laidOut
    rw [code_dropEmptyEnd, ← chunksCode_filter]
    exact filter_squeeze false _
  by_cases hempty : laidOut chunks = []
  · rw [← hlaid, joinChunks_eq, hempty]
    rfl
  · rw [pieces_joinChunks hempty, hlaid]

theorem tidy_joinChunks {chunks : List String} (h : ∀ chunk ∈ chunks, Tidy chunk) :
    Tidy (joinChunks chunks) := by
  by_cases hempty : laidOut chunks = []
  · rw [joinChunks_eq, hempty]
    exact List.forall_mem_singleton.2 (.inl rfl)
  · unfold Tidy
    rw [pieces_joinChunks hempty]
    exact fun line => tidyLine_of_mem_laidOut h

/-- A text that does not begin with a comment has no interpreter line. -/
theorem withoutInterpreter_pieces {cs : List Char} (h : cs.head? ≠ some '#') :
    withoutInterpreter (pieces cs) = pieces cs := by
  cases cs with
  | nil => rfl
  | cons c cs =>
    have hc : c ≠ '#' := fun heq => h (congrArg some heq)
    by_cases hbreak : c = '\n'
    · rw [hbreak]
      rfl
    · obtain ⟨p, ps, hps⟩ := List.exists_cons_of_ne_nil (pieces_ne_nil cs)
      rw [pieces_cons hbreak hps]
      show (if _ then _ else _) = _
      rw [if_neg (by simp [List.isPrefixOf, Ne.symm hc])]

/-- **The code lines of a script are those of its chunks**, with any
options. -/
theorem codeLines_script {chunks : List String} (h : ∀ chunk ∈ chunks, Tidy chunk)
    (options : Options) :
    codeLines (script options chunks) = (chunksCode chunks).map String.ofList := by
  unfold codeLines
  refine congrArg (List.map String.ofList) ?_
  rw [← code_joinChunks]
  by_cases hempty : joinChunks chunks = ""
  · have hnothing : ∀ target : Target,
        code (withoutInterpreter (pieces (target.shebang ++ "\n").toList)) = [] := by
      intro target
      cases target <;> decide +kernel
    rw [hempty, script_of_empty options hempty]
    split
    · exact hnothing options.target
    · rfl
  · obtain ⟨hsolid, hnumber, -⟩ := solid_joinChunks h hempty
    have hend : code (pieces ((joinChunks chunks).toList ++ ['\n']))
        = code (pieces (joinChunks chunks).toList) := by
      rw [pieces_append_break]
      exact (List.filter_append ..).trans (List.append_nil _)
    rw [toList_script options hempty, ← hend]
    split
    · have hfirst : ∀ (target : Target) (cs : List Char),
          withoutInterpreter (pieces (target.shebang.toList ++ '\n' :: '\n' :: cs))
            = [] :: pieces cs := by
        intro target cs
        rw [pieces_append_break]
        cases target <;> rfl
      rw [List.append_assoc, List.cons_append, List.cons_append, List.nil_append, hfirst]
      exact List.filter_cons_of_neg (by decide)
    · rw [← hsolid.head?_append ['\n']] at hnumber
      rw [List.nil_append, withoutInterpreter_pieces hnumber]

end Shell

/-! ## The modules that a statement imports -/

theorem Stmt.forall_importsAll {P : String → Prop} {stmts : List Stmt} :
    (∀ source ∈ Stmt.importsAll stmts, P source) ↔ ∀ s ∈ stmts, ∀ source ∈ s.imports, P source := by
  induction stmts with
  | nil =>
    rw [importsAll]
    exact iff_of_true (List.forall_mem_nil _) (List.forall_mem_nil _)
  | cons s ss ih => rw [importsAll, List.forall_mem_append, ih, List.forall_mem_cons]

theorem SwitchCase.forall_importsAll {P : String → Prop} {cases : List SwitchCase} :
    (∀ source ∈ SwitchCase.importsAll cases, P source)
      ↔ ∀ c ∈ cases, ∀ s ∈ c.consequent, ∀ source ∈ s.imports, P source := by
  induction cases with
  | nil =>
    rw [importsAll]
    exact iff_of_true (List.forall_mem_nil _) (List.forall_mem_nil _)
  | cons c rest ih =>
    obtain ⟨test, consequent, span⟩ := c
    rw [importsAll, imports, List.forall_mem_append, Stmt.forall_importsAll, ih,
      List.forall_mem_cons]
    rfl

section Congruence

variable {w w' : Setting} (hoptions : w'.options = w.options)

theorem Stmt.emitAll_congr {stmts : List Stmt} (h : ∀ s ∈ stmts, s.emit w = s.emit w') :
    Stmt.emitAll w stmts = Stmt.emitAll w' stmts := by
  induction stmts with
  | nil => rw [emitAll, emitAll]
  | cons s ss ih =>
    rw [List.forall_mem_cons] at h
    rw [emitAll, emitAll, h.1, ih h.2]

theorem Stmt.emitCase_congr {stmts : List Stmt} (h : ∀ s ∈ stmts, s.emit w = s.emit w') :
    Stmt.emitCase w stmts = Stmt.emitCase w' stmts := by
  induction stmts with
  | nil => rw [emitCase, emitCase]
  | cons s ss ih =>
    rw [List.forall_mem_cons] at h
    obtain ⟨span, rfl, rfl⟩ | hcons := lastExit_or s ss
    · rw [emitCase, emitCase]
    · rw [emitCase.eq_3 w s ss hcons, emitCase.eq_3 w' s ss hcons, h.1, ih h.2]

include hoptions

theorem Stmt.emitFunction_congr {stmts : List Stmt} (h : ∀ s ∈ stmts, s.emit w = s.emit w') :
    Stmt.emitFunction w stmts = Stmt.emitFunction w' stmts := by
  induction stmts with
  | nil => rw [emitFunction, emitFunction]
  | cons s ss ih =>
    rw [List.forall_mem_cons] at h
    obtain ⟨value, span, rfl, rfl⟩ | hcons := lastReturn_or s ss
    · rw [emitFunction, emitFunction, hoptions]
    · rw [emitFunction.eq_3 w s ss hcons, emitFunction.eq_3 w' s ss hcons, h.1, ih h.2]

theorem SwitchCase.emitAll_congr {cases : List SwitchCase}
    (h : ∀ c ∈ cases, ∀ s ∈ SwitchCase.consequent c, s.emit w = s.emit w')
    (labels : List String) (hasDefault : Bool) :
    SwitchCase.emitAll w labels hasDefault cases
      = SwitchCase.emitAll w' labels hasDefault cases := by
  induction cases generalizing labels hasDefault with
  | nil => rw [SwitchCase.emitAll, SwitchCase.emitAll]
  | cons c rest ih =>
    obtain ⟨test, consequent, span⟩ := c
    rw [List.forall_mem_cons] at h
    have hown : Stmt.emitCase w consequent = Stmt.emitCase w' consequent :=
      Stmt.emitCase_congr h.1
    rw [SwitchCase.emitAll, SwitchCase.emitAll, hoptions, hown]
    simp only [ih h.2]

/-- As an alternate, a statement other than an `if` is written as it is on
its own. -/
theorem Stmt.congr_of_ne_branch {s : Stmt}
    (hs : ∀ test consequent alternate span, s ≠ .branch test consequent alternate span)
    (h : s.emit w = s.emit w') :
    s.emit w = s.emit w' ∧ Stmt.emitAlternate w (some s) = Stmt.emitAlternate w' (some s) := by
  have hno : ¬ ∃ test consequent alternate span, s = .branch test consequent alternate span :=
    fun ⟨test, consequent, alternate, span, heq⟩ => hs test consequent alternate span heq
  rw [(emitAlternate_some w s).resolve_left hno, (emitAlternate_some w' s).resolve_left hno, h,
    hoptions]
  exact ⟨rfl, rfl⟩

/-- An alternate that is an `if` is not written itself, so the induction
carries both. -/
theorem Stmt.emit_congr_and (s : Stmt)
    (hmodules : ∀ source ∈ s.imports, w'.modules source = w.modules source) :
    s.emit w = s.emit w' ∧ Stmt.emitAlternate w (some s) = Stmt.emitAlternate w' (some s) := by
  induction s using Stmt.induction_on with
  | block body span ih =>
    refine Stmt.congr_of_ne_branch hoptions (by simp) ?_
    rw [imports, forall_importsAll] at hmodules
    rw [emit, emit]
    exact emitAll_congr fun s hs => (ih s hs (hmodules s hs)).1
  | branch test consequent alternate span hconsequent halternate =>
    have hboth : consequent.emit w = consequent.emit w'
        ∧ emitAlternate w alternate = emitAlternate w' alternate := by
      cases alternate with
      | none =>
        rw [imports] at hmodules
        exact ⟨(hconsequent hmodules).1, by rw [emitAlternate, emitAlternate]⟩
      | some s =>
        rw [imports, List.forall_mem_append] at hmodules
        exact ⟨(hconsequent hmodules.1).1, (halternate s rfl hmodules.2).2⟩
    rw [emit, emit, emitAlternate, emitAlternate, hboth.1, hboth.2, hoptions]
    exact ⟨rfl, rfl⟩
  | function name params body span ih =>
    refine Stmt.congr_of_ne_branch hoptions (by simp) ?_
    rw [imports, forall_importsAll] at hmodules
    rw [emit, emit, emitFunction_congr hoptions fun s hs => (ih s hs (hmodules s hs)).1, hoptions]
  | switch discriminant cases span ih =>
    refine Stmt.congr_of_ne_branch hoptions (by simp) ?_
    rw [imports, SwitchCase.forall_importsAll] at hmodules
    rw [emit, emit, hoptions,
      SwitchCase.emitAll_congr hoptions fun c hc s hs => (ih c hc s hs (hmodules c hc s hs)).1]
  | importModule source span =>
    refine Stmt.congr_of_ne_branch hoptions (by simp) ?_
    rw [imports, List.forall_mem_singleton] at hmodules
    rw [emit, emit, hmodules]
  | expression value span =>
    refine Stmt.congr_of_ne_branch hoptions (by simp) ?_
    unfold emit
    rw [hoptions]
  | ret argument span =>
    refine Stmt.congr_of_ne_branch hoptions (by simp) ?_
    cases argument with
    | none => rw [emit, emit]
    | some value => rw [emit, emit, hoptions]
  | declaration kind declarators span =>
    refine Stmt.congr_of_ne_branch hoptions (by simp) ?_
    rw [emit, emit, hoptions]
  | empty span => exact Stmt.congr_of_ne_branch hoptions (by simp) (by rw [emit, emit])
  | exit span => exact Stmt.congr_of_ne_branch hoptions (by simp) (by rw [emit, emit])
  | unsupported kind span => exact Stmt.congr_of_ne_branch hoptions (by simp) (by rw [emit, emit])

/-- **Only the modules that a program imports matter.** -/
theorem Program.chunks_congr {p : Program}
    (hmodules : ∀ source ∈ p.imports, w'.modules source = w.modules source) :
    p.chunks w = p.chunks w' := by
  have hemit : ∀ s ∈ p.body, s.emit w = s.emit w' := fun s hs =>
    (Stmt.emit_congr_and hoptions s (Stmt.forall_importsAll.1 hmodules s hs)).1
  have hbody : Stmt.chunks w p.body = Stmt.chunks w' p.body := by
    generalize p.body = stmts at hemit
    induction stmts with
    | nil => rw [Stmt.chunks, Stmt.chunks]
    | cons s ss ih =>
      rw [List.forall_mem_cons] at hemit
      rw [Stmt.chunks, Stmt.chunks, hemit.1, ih hemit.2]
  exact congrArg (outcome · {}) hbody

end Congruence

/-- **Where nothing is imported, the modules do not matter.** -/
theorem Stmt.emit_congr {s : Stmt} (himports : s.imports = []) (options : Options)
    (modules modules' : String → Except Fault String) :
    s.emit ⟨options, modules⟩ = s.emit ⟨options, modules'⟩ := by
  have hoptions : (⟨options, modules'⟩ : Setting).options
      = (⟨options, modules⟩ : Setting).options := rfl
  exact (Stmt.emit_congr_and hoptions s (by rw [himports]; exact List.forall_mem_nil _)).1

theorem Stmt.outcome_chunks_append (w : Setting) (n : Nesting) (stmts stmts' : List Stmt) :
    outcome (Stmt.chunks w (stmts ++ stmts')) n = (do
      let chunks ← outcome (Stmt.chunks w stmts) n
      let chunks' ← outcome (Stmt.chunks w stmts') n
      return chunks ++ chunks') := by
  induction stmts with
  | nil =>
    rw [List.nil_append, outcome_chunks_nil]
    cases outcome (Stmt.chunks w stmts') n <;> rfl
  | cons s ss ih =>
    rw [List.cons_append, outcome_chunks_cons, outcome_chunks_cons, ih]
    cases outcome (s.emit w) n with
    | error fault => rfl
    | ok lines =>
      cases outcome (Stmt.chunks w ss) n with
      | error fault => rfl
      | ok chunks => cases outcome (Stmt.chunks w stmts') n <;> rfl

/-! ## Inlining -/

namespace Project

variable (project : Project) (resolve : Path → String → Option Path)

/-- **The statements of a file, inlined.** An import at the outermost level
gives way to the inlined statements of the source it leads to as seen from
the file. Any other statement stays. -/
inductive Inlines : Path → List Stmt → List Stmt → Prop
  | nil {path : Path} : Inlines path [] []
  | keep {path : Path} {s : Stmt} {ss body : List Stmt}
      (other : ∀ source span, s ≠ .importModule source span) (rest : Inlines path ss body) :
      Inlines path (s :: ss) (s :: body)
  | splice {path : Path} {source : String} {span : Span} {ss imported body : List Stmt}
      {file : SourceFile} (known : file ∈ project.files)
      (leads : resolve path source = some file.path)
      (inner : Inlines file.path file.program.body imported) (rest : Inlines path ss body) :
      Inlines path (.importModule source span :: ss) (imported ++ body)

variable {project resolve}

/-- **There is one way to inline.** -/
theorem Inlines.unique
    (hfiles : ∀ f ∈ project.files, ∀ g ∈ project.files, f.path = g.path → f = g)
    {path : Path} {stmts body body' : List Stmt} (h : project.Inlines resolve path stmts body)
    (h' : project.Inlines resolve path stmts body') : body' = body := by
  induction h generalizing body' with
  | nil =>
    cases h'
    rfl
  | keep other rest ih =>
    cases h' with
    | keep other' rest' => rw [ih rest']
    | splice => exact absurd rfl (other _ _)
  | splice known leads inner rest ihinner ihrest =>
    cases h' with
    | keep other' rest' => exact absurd rfl (other' _ _)
    | splice known' leads' inner' rest' =>
      rw [leads] at leads'
      obtain rfl := hfiles _ known _ known' (Option.some.inj leads')
      rw [ihinner inner', ihrest rest']

/-- **Chunks that stand for statements of a file**: inlining the statements
gives the same code, whatever the modules are. -/
structure Stands (project : Project) (resolve : Path → String → Option Path) (options : Options)
    (path : Path) (stmts : List Stmt) (chunks : List String) : Prop where
  /-- The chunks can be spliced. -/
  tidy : ∀ chunk ∈ chunks, Tidy chunk
  /-- The inlined statements import nothing, and have the same code. -/
  inlined : ∃ body, project.Inlines resolve path stmts body
    ∧ (∀ s ∈ body, s.Plain (isName · = true) false)
    ∧ ∀ modules, ∃ chunks', outcome (Stmt.chunks ⟨options, modules⟩ body) {} = .ok chunks'
      ∧ chunksCode chunks' = chunksCode chunks

namespace Stands

variable {options : Options} {path : Path} {ss : List Stmt} {chunks : List String}

theorem nil : project.Stands resolve options path [] [] :=
  ⟨nofun, [], .nil, nofun, fun _ => ⟨[], Stmt.outcome_chunks_nil _ _, rfl⟩⟩

/-- A plain statement stands for itself. -/
theorem keep {modules : String → Except Fault String} {s : Stmt} {lines : List String}
    (hplain : s.Plain (isName · = true) false)
    (hlines : outcome (s.emit ⟨options, modules⟩) {} = .ok lines)
    (h : project.Stands resolve options path ss chunks) :
    project.Stands resolve options path (s :: ss) (joinWith "\n" lines :: chunks) := by
  obtain ⟨htidy, body, hinlines, hbody, hchunks⟩ := h
  have hother : ∀ source span, s ≠ .importModule source span := by
    rintro source span rfl
    have himports := hplain.1
    rw [Stmt.imports] at himports
    cases himports
  obtain ⟨bs, -, hrenders⟩ :=
    (Stmt.isMirrored (fun _ hname => hname) _ s false {} hplain).1 lines hlines
  refine ⟨List.forall_mem_cons.2 ⟨tidy_joinWith (fun _ hname => hname) hrenders, htidy⟩,
    s :: body, .keep hother hinlines, List.forall_mem_cons.2 ⟨hplain, hbody⟩, fun modules' => ?_⟩
  obtain ⟨chunks', hchunks', hcode⟩ := hchunks modules'
  refine ⟨joinWith "\n" lines :: chunks', ?_, by rw [chunksCode_cons, chunksCode_cons, hcode]⟩
  rw [Stmt.outcome_chunks_cons, Stmt.emit_congr hplain.1 options modules' modules, hlines, hchunks']
  rfl

/-- The layout of what stands for a source stands for an import of it. -/
theorem splice {file : SourceFile} (known : file ∈ project.files) {source : String}
    (leads : resolve path source = some file.path) {imported : List String}
    (himported : project.Stands resolve options file.path file.program.body imported)
    (h : project.Stands resolve options path ss chunks) (span : Span) :
    project.Stands resolve options path (.importModule source span :: ss)
      (joinChunks imported :: chunks) := by
  obtain ⟨htidy, body, hinlines, hbody, hchunks⟩ := h
  obtain ⟨htidy', body', hinlines', hbody', hchunks'⟩ := himported
  refine ⟨List.forall_mem_cons.2 ⟨tidy_joinChunks htidy', htidy⟩, body' ++ body,
    .splice known leads hinlines' hinlines, List.forall_mem_append.2 ⟨hbody', hbody⟩,
    fun modules => ?_⟩
  obtain ⟨own, hown, hcode⟩ := hchunks' modules
  obtain ⟨rest, hrest, hcode'⟩ := hchunks modules
  refine ⟨own ++ rest, ?_, ?_⟩
  · rw [Stmt.outcome_chunks_append, hown, hrest]
    rfl
  · rw [chunksCode_append, chunksCode_cons, code_joinChunks, hcode, hcode']

end Stands

/-- **What a module may import**: a source that something stands for, whose
text is at hand. -/
def Provides (project : Project) (resolve : Path → String → Option Path) (w : Setting)
    (path : Path) (source : String) : Prop :=
  ∃ file ∈ project.files, resolve path source = some file.path
    ∧ ∃ chunks, project.Stands resolve w.options file.path file.program.body chunks
      ∧ ∃ options, w.modules source = .ok (Shell.script options chunks)

/-- **The chunks of a module stand for it**, if they do for all it
imports. -/
theorem stands_of_chunks {w : Setting} {path : Path} {stmts : List Stmt}
    (h : ∀ s ∈ stmts, s.Plain (isName · = true) false
      ∨ ∃ source span, s = .importModule source span ∧ project.Provides resolve w path source)
    {chunks : List String} (hchunks : outcome (Stmt.chunks w stmts) {} = .ok chunks) :
    project.Stands resolve w.options path stmts chunks := by
  induction stmts generalizing chunks with
  | nil =>
    rw [Stmt.outcome_chunks_nil] at hchunks
    cases hchunks
    exact .nil
  | cons s ss ih =>
    rw [List.forall_mem_cons] at h
    rw [Stmt.outcome_chunks_cons] at hchunks
    obtain ⟨lines, rest, hlines, hrest, rfl⟩ := bind₂_eq_ok_iff.1 hchunks
    have htail := ih h.2 hrest
    rcases h.1 with hplain | ⟨source, span, rfl, hprovides⟩
    · exact htail.keep hplain hlines
    · obtain ⟨file, hfile, hleads, imported, himported, options, htext⟩ := hprovides
      rw [Stmt.outcome_importModule] at hlines
      obtain ⟨text, hmodule, rfl⟩ := map_eq_ok_iff.1 hlines
      rw [← Except.ok.inj (htext.symm.trans hmodule), joinWith_spliced_script himported.tidy]
      exact .splice hfile hleads himported htail span

end Project

end ScriptToShell
