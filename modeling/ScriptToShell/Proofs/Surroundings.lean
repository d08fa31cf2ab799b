import ScriptToShell.Proofs.BlockStructure

/-!
# What stands around a statement

A statement is written without regard to where it stands, with three
exceptions: a `return` asks whether there is a function around it, an `if`
whether it is the outermost one, and the message for a stray `break` whether
there is a switch. The first one decides whether there is a script at all.
The second one is about the blank lines around an `if`, and these travel: they
are cut off at the ends of a body, are kept between the statements of it and
in the arm of a switch, and a body that has nothing else is empty.

Still they never show in anything but blank lines. Each step by which lines
become lines commutes with leaving the blank ones out (`nonBlank_body`,
`nonBlank_arm`, `nonBlank_framed`), so two runs over one statement that agree
so far agree after each step (`Matched`). The main statement is
`surroundings_change_blank_lines_only`: of the nesting around a statement, only
whether there is a function counts, for its lines without the blank ones and
for its fault.
-/

namespace ScriptToShell

open Emit Emission Shell

/-! ## Lines without the blank ones -/

namespace Emit

/-- **The lines that are not blank.** -/
def nonBlank (lines : List String) : List String := lines.filter (!isBlankLine ·)

@[simp] theorem nonBlank_nil : nonBlank [] = [] := rfl

@[simp] theorem nonBlank_append (lines lines' : List String) :
    nonBlank (lines ++ lines') = nonBlank lines ++ nonBlank lines' := List.filter_append ..

theorem nonBlank_cons_of_not {line : String} (h : isBlankLine line = false)
    (lines : List String) : nonBlank (line :: lines) = line :: nonBlank lines :=
  List.filter_cons_of_pos (by simp [h])

theorem nonBlank_cons_of_blank {line : String} (h : isBlankLine line = true)
    (lines : List String) : nonBlank (line :: lines) = nonBlank lines :=
  List.filter_cons_of_neg (by simp [h])

/-- Lines before others that agree. -/
theorem nonBlank_cons_congr (line : String) {lines lines' : List String}
    (h : nonBlank lines = nonBlank lines') :
    nonBlank (line :: lines) = nonBlank (line :: lines') := by
  rw [← List.singleton_append, nonBlank_append, h, ← nonBlank_append, List.singleton_append]

theorem nonBlank_eq_nil_iff {lines : List String} :
    nonBlank lines = [] ↔ ∀ line ∈ lines, isBlankLine line = true := by
  rw [nonBlank, List.filter_eq_nil_iff]
  simp

/-- A line with a character that is no white space is not blank. -/
theorem isBlankLine_of_mem {line : String} {c : Char} (hc : c ∈ line.toList)
    (hblank : Text.isBlank c = false) : isBlankLine line = false := by
  refine eq_false_of_ne_true fun hline => ?_
  rw [List.all_eq_true.1 hline c hc] at hblank
  cases hblank

/-- Indentation makes no line blank, and none that is blank anything else. -/
theorem isBlankLine_indentLine (unit : Indent) (line : String) :
    isBlankLine (indentLine unit line) = isBlankLine line := by
  unfold indentLine
  split
  · rfl
  · have hindent : Text.allBlank (indentation unit 1).toList = true :=
      List.all_eq_true.2 fun c hc => (isBlank_of_mem_indentation hc).1
    unfold isBlankLine Text.allBlank at *
    rw [String.toList_append, List.all_append, hindent, Bool.true_and]

@[simp] theorem nonBlank_indentLines (unit : Indent) (lines : List String) :
    nonBlank (indentLines unit lines) = indentLines unit (nonBlank lines) := by
  unfold nonBlank indentLines
  rw [List.filter_map]
  refine congrArg _ (List.filter_congr fun line _ => ?_)
  show (!isBlankLine (indentLine unit line)) = !isBlankLine line
  rw [isBlankLine_indentLine]

theorem nonBlank_dropWhile (lines : List String) :
    nonBlank (lines.dropWhile isBlankLine) = nonBlank lines := by
  induction lines with
  | nil => rfl
  | cons line lines ih =>
    by_cases hblank : isBlankLine line = true
    · rw [List.dropWhile_cons_of_pos hblank, ih, nonBlank_cons_of_blank hblank]
    · rw [List.dropWhile_cons_of_neg hblank]

@[simp] theorem nonBlank_trimBlank (lines : List String) :
    nonBlank (trimBlank lines) = nonBlank lines := by
  have hend := nonBlank_dropWhile lines.reverse
  unfold trimBlank
  rw [nonBlank_dropWhile]
  unfold nonBlank at *
  rw [List.filter_reverse, hend, List.filter_reverse, List.reverse_reverse]

/-- Where no line is blank, nothing is cut off. -/
theorem trimBlank_nonBlank (lines : List String) : trimBlank (nonBlank lines) = nonBlank lines := by
  have hkept : ∀ lines : List String, (∀ line ∈ lines, isBlankLine line = false) →
      lines.dropWhile isBlankLine = lines := by
    intro lines h
    cases lines with
    | nil => rfl
    | cons line lines =>
      exact List.dropWhile_cons_of_neg (by simp [h line List.mem_cons_self])
  have hnone : ∀ line ∈ nonBlank lines, isBlankLine line = false := fun line hline => by
    simpa using (List.mem_filter.1 hline).2
  have hreverse : ∀ line ∈ (nonBlank lines).reverse, isBlankLine line = false :=
    fun line hline => hnone line (List.mem_reverse.1 hline)
  unfold trimBlank
  rw [hkept _ hreverse, List.reverse_reverse, hkept _ hnone]

theorem body_of_nonBlank_eq_nil (unit : Indent) {lines : List String} (h : nonBlank lines = []) :
    body unit lines = indentLines unit [":"] := by
  unfold body
  rw [trimBlank_of_forall (nonBlank_eq_nil_iff.1 h)]

theorem body_of_nonBlank_ne_nil (unit : Indent) {lines : List String} (h : nonBlank lines ≠ []) :
    body unit lines = indentLines unit (trimBlank lines) := by
  unfold body
  split
  · rename_i htrim
    rw [← nonBlank_trimBlank, htrim] at h
    exact absurd rfl h
  · rfl

/-- **The body of a compound command** without its blank lines is the body of
the lines without them. A body of blank lines is an empty one. -/
theorem nonBlank_body (unit : Indent) (lines : List String) :
    nonBlank (body unit lines) = body unit (nonBlank lines) := by
  by_cases hnil : nonBlank lines = []
  · have hcolon : nonBlank [":"] = [":"] := by decide
    rw [hnil, body_of_nonBlank_eq_nil unit hnil, body_of_nonBlank_eq_nil unit nonBlank_nil,
      nonBlank_indentLines, hcolon]
  · have hself : nonBlank (nonBlank lines) = nonBlank lines :=
      List.filter_eq_self.2 fun _ hline => (List.mem_filter.1 hline).2
    rw [body_of_nonBlank_ne_nil unit hnil, body_of_nonBlank_ne_nil unit (hself.symm ▸ hnil),
      nonBlank_indentLines, nonBlank_trimBlank, trimBlank_nonBlank]

/-- **The arm of a switch** without its blank lines is the arm of the lines
without them. -/
theorem nonBlank_arm (unit : Indent) (labels lines : List String) :
    nonBlank (arm unit labels lines) = arm unit labels (nonBlank lines) := by
  have hlabels : isBlankLine (Text.joinWith "|" labels ++ ")") = false :=
    isBlankLine_of_mem (c := ')') (by simp) (by decide)
  have hend : nonBlank [";;"] = [";;"] := by decide
  unfold arm
  rw [nonBlank_indentLines, List.cons_append, nonBlank_cons_of_not hlabels, nonBlank_append,
    nonBlank_indentLines, hend, List.cons_append]

/-- The blank lines that set off an `if` are blank. -/
@[simp] theorem nonBlank_framed (outermost : Bool) (lines : List String) :
    nonBlank (framed outermost lines) = nonBlank lines := by
  have hempty : isBlankLine "" = true := rfl
  cases outermost with
  | false => rfl
  | true =>
    show nonBlank ("" :: (lines ++ [""])) = nonBlank lines
    rw [nonBlank_cons_of_blank hempty, nonBlank_append, nonBlank_cons_of_blank hempty, nonBlank_nil,
      List.append_nil]

end Emit

/-! ## Outcomes that match -/

/-- The reasons for which a `break` is turned down. -/
def breakReasons : List String :=
  ["`break` may only end a switch case", "`break` outside a switch"]

/-- **Faults that match**: they are the same, or both turn down one and the
same `break`, be it for another reason. -/
def Fault.Matches (fault fault' : Fault) : Prop :=
  fault = fault' ∨ ∃ reason ∈ breakReasons, ∃ reason' ∈ breakReasons, ∃ span,
    fault = .notSupportedFor .breakStatement reason span
      ∧ fault' = .notSupportedFor .breakStatement reason' span

/-- **Outcomes that match**: both are faults that match, or both are results
that are related. -/
inductive Matched {α : Type} (L : α → α → Prop) : Except Fault α → Except Fault α → Prop
  | ok {a a'} (h : L a a') : Matched L (.ok a) (.ok a')
  | error {fault fault' : Fault} (h : fault.Matches fault') :
      Matched L (.error fault) (.error fault')

namespace Matched

variable {α β : Type} {L : α → α → Prop} {M : β → β → Prop}

/-- Sequences match if their steps do. -/
theorem bind {x y : Except Fault α} {f g : α → Except Fault β} (hxy : Matched L x y)
    (hfg : ∀ a a', L a a' → Matched M (f a) (g a')) : Matched M (x >>= f) (y >>= g) := by
  cases hxy with
  | ok h => exact hfg _ _ h
  | error h => exact .error h

/-- A first step that is the same in both runs. -/
theorem bind_same (x : Except Fault α) {f g : α → Except Fault β}
    (hfg : ∀ a, Matched M (f a) (g a)) : Matched M (x >>= f) (x >>= g) := by
  cases x with
  | ok a => exact hfg a
  | error fault => exact .error (.inl rfl)

theorem refl (hL : ∀ a, L a a) (x : Except Fault α) : Matched L x x := by
  cases x with
  | ok a => exact .ok (hL a)
  | error fault => exact .error (.inl rfl)

end Matched

/-- **Lines that agree** but for blank ones. -/
def LinesAgree (lines lines' : List String) : Prop := nonBlank lines = nonBlank lines'

namespace LinesAgree

variable {lines lines' rest rest' : List String}

theorem refl (lines : List String) : LinesAgree lines lines := Eq.refl (nonBlank lines)

theorem append (h : LinesAgree lines lines') (hrest : LinesAgree rest rest') :
    LinesAgree (lines ++ rest) (lines' ++ rest') := by
  unfold LinesAgree at *
  rw [nonBlank_append, nonBlank_append, h, hrest]

theorem cons (line : String) (h : LinesAgree lines lines') :
    LinesAgree (line :: lines) (line :: lines') := nonBlank_cons_congr line h

theorem body (unit : Indent) (h : LinesAgree lines lines') :
    LinesAgree (Emit.body unit lines) (Emit.body unit lines') := by
  unfold LinesAgree at *
  rw [nonBlank_body, nonBlank_body, h]

theorem arm (unit : Indent) (labels : List String) (h : LinesAgree lines lines') :
    LinesAgree (Emit.arm unit labels lines) (Emit.arm unit labels lines') := by
  unfold LinesAgree at *
  rw [nonBlank_arm, nonBlank_arm, h]

/-- An `if` may be the outermost one in one run and not in the other. -/
theorem framed (outermost outermost' : Bool) (h : LinesAgree lines lines') :
    LinesAgree (Emit.framed outermost lines) (Emit.framed outermost' lines') := by
  unfold LinesAgree at *
  rw [nonBlank_framed, nonBlank_framed, h]

end LinesAgree

/-- Arms that agree: those of the cases, and that of the default. -/
structure ArmsAgree (arms arms' : List String × Option (List String)) : Prop where
  /-- The arms of the cases agree. -/
  cases : LinesAgree arms.1 arms'.1
  /-- So does that of the default, and there is one in both runs or in neither. -/
  default : Option.Rel LinesAgree arms.2 arms'.2

namespace ArmsAgree

variable {arms arms' : List String × Option (List String)}

theorem getD (h : ArmsAgree arms arms') : LinesAgree (arms.2.getD []) (arms'.2.getD []) := by
  obtain ⟨lines, default⟩ := arms
  obtain ⟨lines', default'⟩ := arms'
  cases h.default with
  | none => exact .refl []
  | some hdefault => exact hdefault

/-- An arm joins those of the cases behind it. -/
theorem join (h : ArmsAgree arms arms') {own own' : List String} (hown : LinesAgree own own')
    (isDefault : Bool) :
    ArmsAgree (if isDefault then (arms.1, arms.2.or (some own)) else (own ++ arms.1, arms.2))
      (if isDefault then (arms'.1, arms'.2.or (some own')) else (own' ++ arms'.1, arms'.2)) := by
  cases isDefault with
  | false => exact ⟨hown.append h.cases, h.default⟩
  | true =>
    obtain ⟨lines, default⟩ := arms
    obtain ⟨lines', default'⟩ := arms'
    refine ⟨h.cases, ?_⟩
    cases h.default with
    | none => exact .some hown
    | some hdefault => exact .some hdefault

end ArmsAgree

/-! ## Surroundings that are alike -/

/-- **Surroundings that are alike**: there is a function in both or in
neither. -/
def Nesting.Alike (n n' : Nesting) : Prop := n.functions = 0 ↔ n'.functions = 0

namespace Nesting.Alike

variable {n n' : Nesting}

theorem inIf (h : n.Alike n') : n.inIf.Alike n'.inIf := h

theorem inSwitch (h : n.Alike n') : n.inSwitch.Alike n'.inSwitch := h

/-- Inside a function, all surroundings are alike. -/
theorem inFunction (n n' : Nesting) : n.inFunction.Alike n'.inFunction :=
  iff_of_false (Nat.succ_ne_zero _) (Nat.succ_ne_zero _)

end Nesting.Alike

namespace Stmt

variable {w : Setting}

/-- **A statement whose surroundings show in blank lines only.** -/
def Steady (w : Setting) (s : Stmt) : Prop :=
  ∀ n n' : Nesting, n.Alike n' → Matched LinesAgree (outcome (s.emit w) n) (outcome (s.emit w) n')

/-- The same of a statement that is the alternate of an `if`. -/
def SteadyAlternate (w : Setting) (alternate : Option Stmt) : Prop :=
  ∀ n n' : Nesting, n.Alike n' →
    Matched LinesAgree (outcome (emitAlternate w alternate) n)
      (outcome (emitAlternate w alternate) n')

section Lists

variable {stmts : List Stmt} {n n' : Nesting} (hn : n.Alike n')
include hn

theorem matched_emitAll (h : ∀ s ∈ stmts, s.Steady w) :
    Matched LinesAgree (outcome (emitAll w stmts) n) (outcome (emitAll w stmts) n') := by
  induction stmts with
  | nil =>
    rw [outcome_emitAll_nil, outcome_emitAll_nil]
    exact .ok (.refl [])
  | cons s ss ih =>
    rw [List.forall_mem_cons] at h
    rw [outcome_emitAll_cons, outcome_emitAll_cons]
    exact (h.1 n n' hn).bind fun _ _ hlines => (ih h.2).bind fun _ _ hrest =>
      .ok (hlines.append hrest)

theorem matched_emitFunction (h : ∀ s ∈ stmts, s.Steady w) :
    Matched LinesAgree (outcome (emitFunction w stmts) n) (outcome (emitFunction w stmts) n') := by
  induction stmts with
  | nil =>
    rw [outcome_emitFunction_nil, outcome_emitFunction_nil]
    exact .ok (.refl [])
  | cons s ss ih =>
    rw [List.forall_mem_cons] at h
    obtain ⟨value, span, rfl, rfl⟩ | hcons := lastReturn_or s ss
    · rw [outcome_emitFunction_ret, outcome_emitFunction_ret]
      exact .refl .refl _
    · rw [outcome_emitFunction_cons w n hcons, outcome_emitFunction_cons w n' hcons]
      exact (h.1 n n' hn).bind fun _ _ hlines => (ih h.2).bind fun _ _ hrest =>
        .ok (hlines.append hrest)

theorem matched_emitCase (h : ∀ s ∈ stmts, s.Steady w) :
    Matched LinesAgree (outcome (emitCase w stmts) n) (outcome (emitCase w stmts) n') := by
  induction stmts with
  | nil =>
    rw [outcome_emitCase_nil, outcome_emitCase_nil]
    exact .ok (.refl [])
  | cons s ss ih =>
    rw [List.forall_mem_cons] at h
    obtain ⟨span, rfl, rfl⟩ | hcons := lastExit_or s ss
    · rw [outcome_emitCase_exit, outcome_emitCase_exit]
      exact .ok (.refl [])
    · rw [outcome_emitCase_cons w n hcons, outcome_emitCase_cons w n' hcons]
      exact (h.1 n n' hn).bind fun _ _ hlines => (ih h.2).bind fun _ _ hrest =>
        .ok (hlines.append hrest)

/-- The arms of a switch keep the blank lines of their statements, but not
more than those differ. -/
theorem matched_emitCases {cases : List SwitchCase}
    (h : ∀ c ∈ cases, ∀ s ∈ SwitchCase.consequent c, s.Steady w) (labels : List String)
    (hasDefault : Bool) :
    Matched ArmsAgree (outcome (SwitchCase.emitAll w labels hasDefault cases) n)
      (outcome (SwitchCase.emitAll w labels hasDefault cases) n') := by
  induction cases generalizing labels hasDefault with
  | nil =>
    rw [SwitchCase.outcome_emitAll_nil, SwitchCase.outcome_emitAll_nil]
    exact .ok ⟨.refl [], .none⟩
  | cons c rest ih =>
    obtain ⟨test, consequent, span⟩ := c
    rw [List.forall_mem_cons] at h
    rw [SwitchCase.outcome_emitAll_cons, SwitchCase.outcome_emitAll_cons]
    refine .bind_same _ fun label => ?_
    split
    · exact ih h.2 _ _
    · split
      · exact .error (.inl rfl)
      · exact (matched_emitCase hn h.1).bind fun _ _ hlines =>
          (ih h.2 [] false).bind fun _ _ harms => .ok (harms.join (hlines.arm _ _) _)

end Lists

/-- As an alternate, a statement other than an `if` is written as it is on
its own. -/
theorem steady_of_ne_branch {s : Stmt}
    (hs : ∀ test consequent alternate span, s ≠ .branch test consequent alternate span)
    (h : s.Steady w) : s.Steady w ∧ SteadyAlternate w (some s) := by
  refine ⟨h, fun n n' hn => ?_⟩
  rw [outcome_emitAlternate_else w n hs, outcome_emitAlternate_else w n' hs]
  exact (h n n' hn).bind fun _ _ hlines => .ok ((hlines.body _).cons "else")

/-- **Surroundings show in blank lines only.** An `if` that is an alternate is
not emitted itself, so the induction carries both. -/
theorem steady (w : Setting) (s : Stmt) : s.Steady w ∧ SteadyAlternate w (some s) := by
  induction s using Stmt.induction_on with
  | block body span ih =>
    refine steady_of_ne_branch nofun fun n n' hn => ?_
    rw [outcome_block, outcome_block]
    exact matched_emitAll hn fun s hs => (ih s hs).1
  | empty span =>
    refine steady_of_ne_branch nofun fun n n' hn => ?_
    rw [outcome_empty, outcome_empty]
    exact .ok (.refl [])
  | expression value span =>
    refine steady_of_ne_branch nofun fun n n' hn => ?_
    rw [outcome_expression, outcome_expression]
    exact .refl .refl _
  | branch test consequent alternate span ihc iha =>
    have hrest : SteadyAlternate w alternate := by
      cases alternate with
      | none =>
        intro n n' _
        rw [outcome_emitAlternate_none, outcome_emitAlternate_none]
        exact .ok (.refl [])
      | some s => exact (iha s rfl).2
    constructor
    · intro n n' hn
      rw [outcome_branch, outcome_branch]
      -- the one place where the blank lines of the two runs may differ
      exact .bind_same _ fun t => (ihc.1 _ _ hn.inIf).bind fun _ _ hlines =>
        (hrest _ _ hn.inIf).bind fun _ _ hothers =>
          .ok (.framed _ _ ((((hlines.body _).cons _).append hothers).append (.refl ["fi"])))
    · intro n n' hn
      rw [outcome_emitAlternate_branch, outcome_emitAlternate_branch]
      exact .bind_same _ fun t => (ihc.1 n n' hn).bind fun _ _ hlines =>
        (hrest n n' hn).bind fun _ _ hothers => .ok (((hlines.body _).cons _).append hothers)
  | function name params body span ih =>
    refine steady_of_ne_branch nofun fun n n' _ => ?_
    rw [outcome_function, outcome_function]
    exact .bind_same _ fun locals => (matched_emitFunction (Nesting.Alike.inFunction n n')
      fun s hs => (ih s hs).1).bind fun _ _ hlines =>
        .ok (((((LinesAgree.refl locals).append hlines).body _).cons _).append (.refl _))
  | ret argument span =>
    refine steady_of_ne_branch nofun fun n n' hn => ?_
    rw [outcome_ret, outcome_ret]
    by_cases hnone : n.functions = 0
    · rw [if_pos hnone, if_pos (hn.1 hnone)]
      exact .error (.inl rfl)
    · rw [if_neg hnone, if_neg (mt hn.2 hnone)]
      exact .refl .refl _
  | declaration kind declarators span =>
    refine steady_of_ne_branch nofun fun n n' _ => ?_
    rw [outcome_declaration, outcome_declaration]
    exact .refl .refl _
  | switch discriminant cases span ih =>
    refine steady_of_ne_branch nofun fun n n' hn => ?_
    rw [outcome_switch, outcome_switch]
    exact .bind_same _ fun d =>
      (matched_emitCases hn.inSwitch (fun c hc s hs => (ih c hc s hs).1) [] false).bind
        fun _ _ harms => .ok (((harms.cases.cons _).append harms.getD).append (.refl ["esac"]))
  | importModule source span =>
    refine steady_of_ne_branch nofun fun n n' _ => ?_
    rw [outcome_importModule, outcome_importModule]
    exact .refl .refl _
  | exit span =>
    refine steady_of_ne_branch nofun fun n n' _ => ?_
    have hreason : ∀ n : Nesting, (if 0 < n.switches then "`break` may only end a switch case"
        else "`break` outside a switch") ∈ breakReasons := by
      intro n
      unfold breakReasons
      split <;> simp
    rw [outcome_exit, outcome_exit]
    exact .error (.inr ⟨_, hreason n, _, hreason n', span, rfl, rfl⟩)
  | unsupported kind span =>
    refine steady_of_ne_branch nofun fun n n' _ => ?_
    rw [outcome_unsupported, outcome_unsupported]
    exact .error (.inl rfl)

end Stmt

/-- **Surrounding conditionals only change blank lines.** From two nestings
with a function in both or in neither, however many `if`s and switches there
are, a statement becomes lines in both or in neither. The lines are the same
but for the blank ones. The faults are the same but for the reason why a
`break` is turned down. -/
theorem surroundings_change_blank_lines_only (w : Setting) (s : Stmt) (n n' : Nesting)
    (h : n.functions = 0 ↔ n'.functions = 0) :
    (∃ lines lines', ((s.emit w).runFrom n).1 = .ok lines
        ∧ ((s.emit w).runFrom n').1 = .ok lines' ∧ nonBlank lines = nonBlank lines')
      ∨ ∃ fault fault', ((s.emit w).runFrom n).1 = .error fault
        ∧ ((s.emit w).runFrom n').1 = .error fault'
        ∧ (fault = fault' ∨ ∃ reason ∈ breakReasons, ∃ reason' ∈ breakReasons, ∃ span,
          fault = .notSupportedFor .breakStatement reason span
            ∧ fault' = .notSupportedFor .breakStatement reason' span) := by
  have hmatched := (s.steady w).1 n n' h
  unfold outcome at hmatched
  cases hx : ((s.emit w).runFrom n).1 with
  | ok lines =>
    rw [hx] at hmatched
    cases hy : ((s.emit w).runFrom n').1 with
    | ok lines' =>
      rw [hy] at hmatched
      cases hmatched with
      | ok hlines => exact .inl ⟨lines, lines', rfl, rfl, hlines⟩
    | error fault' =>
      rw [hy] at hmatched
      cases hmatched
  | error fault =>
    rw [hx] at hmatched
    cases hy : ((s.emit w).runFrom n').1 with
    | ok lines' =>
      rw [hy] at hmatched
      cases hmatched
    | error fault' =>
      rw [hy] at hmatched
      cases hmatched with
      | error hfault => exact .inr ⟨fault, fault', rfl, rfl, hfault⟩

/-- A switch with an `if` in its arm, which has an `if` without commands and a
call behind it. -/
def branchingSwitch : Stmt :=
  let test (name : String) : Expr := .identifier name .nowhere
  let call : Stmt := .expression (.call (.identifier "f" .nowhere) [] .nowhere) .nowhere
  let inner : Stmt := .branch (test "z") (.block [] .nowhere) none .nowhere
  .switch (test "x")
    [.mk none [.branch (test "y") (.block [inner, call] .nowhere) none .nowhere] .nowhere] .nowhere

/-- On its own the `if` is set off by blank lines, which the arm keeps; inside
another `if` it is not. -/
theorem branchingSwitch_surrounded : ∃ lines lines',
    ((branchingSwitch.emit .blank).runFrom {}).1 = .ok lines
      ∧ ((branchingSwitch.emit .blank).runFrom { ifs := 2, switches := 1 }).1 = .ok lines'
      ∧ lines ≠ lines' ∧ nonBlank lines = nonBlank lines' := by
  refine ⟨_, _, rfl, rfl, by decide, ?_⟩
  obtain ⟨lines, lines', hlines, hlines', heq⟩ | ⟨fault, -, hfault, -⟩ :=
    surroundings_change_blank_lines_only .blank branchingSwitch {} { ifs := 2, switches := 1 } .rfl
  · cases hlines
    cases hlines'
    exact heq
  · cases hfault

end ScriptToShell
