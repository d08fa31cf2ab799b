import ScriptToShell.Proofs.BlockStructure

/-!
# The indentation unit is layout only

Bodies are written at the margin and then moved to the right, one unit at
a time, so what is written depends on the unit everywhere. It does so in one
way only: there is a list of texts with depths, the same for all units, and
the lines for a unit are those texts behind the unit repeated as often as
the depth says. A family of lines of this form is **level**
(`IsLevel`), and moving, trimming and framing lines keep it level. Likewise
a fault is the same for all units. Both are carried through the statements
(`IsUniform`), and the main statement of this module is what they say of a
statement as a whole: `indentation_is_layout`.
-/

namespace ScriptToShell

open Emit Emission Shell

/-! ## Lines that are level -/

/-- A text behind the indentation of its depth. An empty text gives an
empty line. -/
def laid (unit : Indent) (line : Nat × String) : String :=
  if line.2 = "" then "" else placed unit line

/-- **Lines for every unit that differ in their indentation only.** -/
def IsLevel (lines : Indent → List String) : Prop :=
  ∃ plan : List (Nat × String), ∀ unit, lines unit = plan.map (laid unit)

theorem laid_zero (unit : Indent) (text : String) : laid unit (0, text) = text := by
  unfold laid
  rw [placed_zero]
  split
  · next h => exact h.symm
  · rfl

theorem laid_eq_empty_iff {unit : Indent} {line : Nat × String} :
    laid unit line = "" ↔ line.2 = "" := by
  unfold laid
  split
  · next h => exact ⟨fun _ => h, fun _ => rfl⟩
  · next h =>
    rw [placed, String.append_eq_empty_iff]
    exact ⟨fun hplaced => hplaced.2, fun htext => absurd htext h⟩

theorem indentLine_laid (unit : Indent) (line : Nat × String) :
    indentLine unit (laid unit line) = laid unit (line.1 + 1, line.2) := by
  unfold indentLine
  by_cases htext : line.2 = ""
  · rw [if_pos (laid_eq_empty_iff.2 htext), laid_eq_empty_iff.2 htext, laid, if_pos htext]
  · rw [if_neg (mt laid_eq_empty_iff.1 htext), laid, if_neg htext, laid, if_neg htext, placed,
      placed, indentation_succ unit line.1, String.append_assoc]

/-- Whether a line is blank does not depend on the unit. -/
theorem isBlankLine_laid (unit : Indent) (line : Nat × String) :
    isBlankLine (laid unit line) = isBlankLine line.2 := by
  unfold laid
  split
  · next h => rw [h]
  · have hindent : Text.allBlank (indentation unit line.1).toList = true :=
      List.all_eq_true.2 fun c hc => (isBlank_of_mem_indentation hc).1
    unfold isBlankLine placed Text.allBlank at *
    rw [String.toList_append, List.all_append, hindent, Bool.true_and]

namespace IsLevel

variable {lines lines' : Indent → List String}

theorem const (texts : List String) : IsLevel fun _ => texts := by
  refine ⟨texts.map (0, ·), fun unit => ?_⟩
  rw [List.map_map]
  exact (List.map_id'' (laid_zero unit) texts).symm

theorem append (h : IsLevel lines) (h' : IsLevel lines') :
    IsLevel fun unit => lines unit ++ lines' unit := by
  obtain ⟨plan, hplan⟩ := h
  obtain ⟨plan', hplan'⟩ := h'
  refine ⟨plan ++ plan', fun unit => ?_⟩
  dsimp only
  rw [hplan, hplan', List.map_append]

theorem cons (text : String) (h : IsLevel lines) : IsLevel fun unit => text :: lines unit :=
  (const [text]).append h

theorem indentLines (h : IsLevel lines) : IsLevel fun unit => indentLines unit (lines unit) := by
  obtain ⟨plan, hplan⟩ := h
  refine ⟨plan.map fun line => (line.1 + 1, line.2), fun unit => ?_⟩
  dsimp only
  rw [hplan, Shell.indentLines, List.map_map, List.map_map]
  exact List.map_congr_left fun line _ => indentLine_laid unit line

theorem trimBlank (h : IsLevel lines) : IsLevel fun unit => trimBlank (lines unit) := by
  obtain ⟨plan, hplan⟩ := h
  let blank (line : Nat × String) : Bool := isBlankLine line.2
  have hblank (unit : Indent) : isBlankLine ∘ laid unit = blank :=
    funext (isBlankLine_laid unit)
  refine ⟨(plan.reverse.dropWhile blank).reverse.dropWhile blank, fun unit => ?_⟩
  dsimp only
  rw [hplan, Emit.trimBlank, ← List.map_reverse, List.dropWhile_map, ← List.map_reverse,
    List.dropWhile_map, hblank]

theorem body (h : IsLevel lines) : IsLevel fun unit => body unit (lines unit) := by
  obtain ⟨plan, hplan⟩ := h.trimBlank
  dsimp only at hplan
  cases plan with
  | nil =>
    -- a body of blank lines is so for every unit
    have hbody (unit : Indent) : Emit.body unit (lines unit) = Shell.indentLines unit [":"] := by
      unfold Emit.body
      rw [hplan]
      rfl
    obtain ⟨filled, hfilled⟩ := (const [":"]).indentLines
    exact ⟨filled, fun unit => (hbody unit).trans (hfilled unit)⟩
  | cons line rest =>
    have hbody (unit : Indent) :
        Emit.body unit (lines unit) = Shell.indentLines unit (Emit.trimBlank (lines unit)) := by
      unfold Emit.body
      rw [hplan]
      rfl
    obtain ⟨moved, hmoved⟩ := h.trimBlank.indentLines
    exact ⟨moved, fun unit => (hbody unit).trans (hmoved unit)⟩

theorem arm (labels : List String) (h : IsLevel lines) :
    IsLevel fun unit => arm unit labels (lines unit) :=
  ((h.indentLines.cons _).append (const [";;"])).indentLines

theorem framed (outermost : Bool) (h : IsLevel lines) :
    IsLevel fun unit => framed outermost (lines unit) := by
  cases outermost with
  | true => exact (h.cons "").append (const [""])
  | false => exact h

end IsLevel

/-! ## Outcomes that are uniform -/

variable {α β : Type} {L : (Indent → α) → Prop} {M : (Indent → β) → Prop}

/-- **Outcomes for every unit that are uniform**: one fault for all units,
or values that vary with the unit in a way that is allowed. -/
def IsUniform (L : (Indent → α) → Prop) (x : Indent → Except Fault α) : Prop :=
  (∃ fault, ∀ unit, x unit = .error fault) ∨ ∃ y, L y ∧ ∀ unit, x unit = .ok (y unit)

namespace IsUniform

theorem error (fault : Fault) : IsUniform L fun _ => .error fault := .inl ⟨fault, fun _ => rfl⟩

theorem ok {y : Indent → α} (h : L y) : IsUniform L fun unit => .ok (y unit) :=
  .inr ⟨y, h, fun _ => rfl⟩

theorem bind {x : Indent → Except Fault α} {f : Indent → α → Except Fault β}
    (hx : IsUniform L x) (hf : ∀ y, L y → IsUniform M fun unit => f unit (y unit)) :
    IsUniform M fun unit => x unit >>= f unit := by
  obtain ⟨fault, hfault⟩ | ⟨y, hy, hxy⟩ := hx
  · exact .inl ⟨fault, fun unit => congrArg (· >>= f unit) (hfault unit)⟩
  · have hbind : (fun unit => x unit >>= f unit) = fun unit => f unit (y unit) :=
      funext fun unit => by rw [hxy]; rfl
    rw [hbind]
    exact hf y hy

/-- A step that does not depend on the unit. -/
theorem bind_const (x : Except Fault α) {f : Indent → α → Except Fault β}
    (hf : ∀ a, IsUniform M fun unit => f unit a) : IsUniform M fun unit => x >>= f unit := by
  cases x with
  | error fault => exact error fault
  | ok a => exact hf a

theorem const (x : Except Fault (List String)) : IsUniform IsLevel fun _ => x := by
  cases x with
  | error fault => exact error fault
  | ok texts => exact ok (.const texts)

end IsUniform

/-! ## Statements -/

/-- A setting with another indentation unit. -/
def Setting.withIndent (w : Setting) (unit : Indent) : Setting :=
  { w with options := { w.options with indent := unit } }

@[simp] theorem Setting.target_withIndent (w : Setting) (unit : Indent) :
    (w.withIndent unit).options.target = w.options.target := rfl

@[simp] theorem Setting.indent_withIndent (w : Setting) (unit : Indent) :
    (w.withIndent unit).options.indent = unit := rfl

@[simp] theorem Setting.modules_withIndent (w : Setting) (unit : Indent) :
    (w.withIndent unit).modules = w.modules := rfl

namespace Stmt

variable (w : Setting)

/-- **A statement whose lines are level**, or whose fault is one for all
units, in every nesting. -/
def Uniform (s : Stmt) : Prop :=
  ∀ n, IsUniform IsLevel fun unit => outcome (s.emit (w.withIndent unit)) n

variable {w}

theorem uniform_emitAll {stmts : List Stmt} (h : ∀ s ∈ stmts, s.Uniform w) (n : Nesting) :
    IsUniform IsLevel fun unit => outcome (emitAll (w.withIndent unit) stmts) n := by
  induction stmts with
  | nil =>
    simp only [outcome_emitAll_nil]
    exact .ok (.const [])
  | cons s ss ih =>
    rw [List.forall_mem_cons] at h
    simp only [outcome_emitAll_cons]
    exact (h.1 n).bind fun _ hlines => (ih h.2).bind fun _ hrest => .ok (hlines.append hrest)

theorem uniform_emitFunction {stmts : List Stmt} (h : ∀ s ∈ stmts, s.Uniform w) (n : Nesting) :
    IsUniform IsLevel fun unit => outcome (emitFunction (w.withIndent unit) stmts) n := by
  induction stmts with
  | nil =>
    simp only [outcome_emitFunction_nil]
    exact .ok (.const [])
  | cons s ss ih =>
    rw [List.forall_mem_cons] at h
    obtain ⟨value, span, rfl, rfl⟩ | hcons := lastReturn_or s ss
    · simp only [outcome_emitFunction_ret, Setting.target_withIndent]
      exact .const _
    · simp only [outcome_emitFunction_cons _ n hcons]
      exact (h.1 n).bind fun _ hlines => (ih h.2).bind fun _ hrest => .ok (hlines.append hrest)

theorem uniform_emitCase {stmts : List Stmt} (h : ∀ s ∈ stmts, s.Uniform w) (n : Nesting) :
    IsUniform IsLevel fun unit => outcome (emitCase (w.withIndent unit) stmts) n := by
  induction stmts with
  | nil =>
    simp only [outcome_emitCase_nil]
    exact .ok (.const [])
  | cons s ss ih =>
    rw [List.forall_mem_cons] at h
    obtain ⟨span, rfl, rfl⟩ | hcons := lastExit_or s ss
    · simp only [outcome_emitCase_exit]
      exact .ok (.const [])
    · simp only [outcome_emitCase_cons _ n hcons]
      exact (h.1 n).bind fun _ hlines => (ih h.2).bind fun _ hrest => .ok (hlines.append hrest)

end Stmt

/-- Arms that are level: those of the cases, and that of the default if
there is one. -/
def IsLevelArms (arms : Indent → List String × Option (List String)) : Prop :=
  IsLevel (fun unit => (arms unit).1)
    ∧ ((∀ unit, (arms unit).2 = none)
      ∨ ∃ lines, IsLevel lines ∧ ∀ unit, (arms unit).2 = some (lines unit))

theorem IsLevelArms.default {arms : Indent → List String × Option (List String)}
    (h : IsLevelArms arms) : IsLevel fun unit => (arms unit).2.getD [] := by
  obtain hnone | ⟨lines, hlines, hsome⟩ := h.2
  · simp only [hnone]
    exact .const []
  · simp only [hsome]
    exact hlines

/-- An arm joins those of the cases behind it. -/
theorem IsLevelArms.join {arms : Indent → List String × Option (List String)}
    (h : IsLevelArms arms) {own : Indent → List String} (hown : IsLevel own) (isDefault : Bool) :
    IsLevelArms fun unit =>
      if isDefault then ((arms unit).1, (arms unit).2.or (some (own unit)))
      else (own unit ++ (arms unit).1, (arms unit).2) := by
  cases isDefault with
  | false => exact ⟨hown.append h.1, h.2⟩
  | true =>
    refine ⟨h.1, .inr ?_⟩
    obtain hnone | ⟨lines, hlines, hsome⟩ := h.2
    · exact ⟨own, hown, fun unit => by simp [hnone]⟩
    · exact ⟨lines, hlines, fun unit => by simp [hsome]⟩

theorem SwitchCase.uniform_emitAll {w : Setting} {cases : List SwitchCase}
    (h : ∀ c ∈ cases, ∀ s ∈ SwitchCase.consequent c, s.Uniform w) (n : Nesting)
    (labels : List String) (hasDefault : Bool) :
    IsUniform IsLevelArms fun unit =>
      outcome (SwitchCase.emitAll (w.withIndent unit) labels hasDefault cases) n := by
  induction cases generalizing labels hasDefault with
  | nil =>
    simp only [SwitchCase.outcome_emitAll_nil]
    exact .ok ⟨.const [], .inl fun _ => rfl⟩
  | cons c rest ih =>
    obtain ⟨test, consequent, span⟩ := c
    rw [List.forall_mem_cons] at h
    simp only [SwitchCase.outcome_emitAll_cons, Setting.target_withIndent,
      Setting.indent_withIndent]
    refine .bind_const _ fun label => ?_
    split
    · exact ih h.2 _ _
    · split
      · exact .error _
      · exact (Stmt.uniform_emitCase h.1 n).bind fun _ hlines =>
          (ih h.2 [] false).bind fun _ harms => .ok (harms.join (hlines.arm _) _)

namespace Stmt

variable {w : Setting}

theorem uniform_and_of_ne_branch {s : Stmt}
    (hs : ∀ test consequent alternate span, s ≠ .branch test consequent alternate span)
    (h : s.Uniform w) :
    s.Uniform w ∧ ∀ n, IsUniform IsLevel fun unit =>
      outcome (emitAlternate (w.withIndent unit) (some s)) n := by
  refine ⟨h, fun n => ?_⟩
  simp only [outcome_emitAlternate_else _ n hs]
  exact (h n).bind fun _ hlines => .ok (hlines.body.cons "else")

/-- What a statement emits and what it emits as an alternate is uniform. An
alternate that is a conditional is not emitted itself, so the induction
carries both. -/
theorem uniform_and (w : Setting) (s : Stmt) :
    s.Uniform w ∧ ∀ n, IsUniform IsLevel fun unit =>
      outcome (emitAlternate (w.withIndent unit) (some s)) n := by
  induction s using Stmt.induction_on with
  | block body span ih =>
    refine uniform_and_of_ne_branch nofun fun n => ?_
    simp only [outcome_block]
    exact uniform_emitAll (fun s hs => (ih s hs).1) n
  | empty span =>
    refine uniform_and_of_ne_branch nofun fun n => ?_
    simp only [outcome_empty]
    exact .ok (.const [])
  | expression value span =>
    refine uniform_and_of_ne_branch nofun fun n => ?_
    simp only [outcome_expression, Setting.target_withIndent]
    split
    · exact .const _
    · exact .const _
    · exact .error _
  | branch test consequent alternate span ihc iha =>
    have hrest (n : Nesting) : IsUniform IsLevel fun unit =>
        outcome (emitAlternate (w.withIndent unit) alternate) n := by
      cases alternate with
      | none =>
        simp only [outcome_emitAlternate_none]
        exact .ok (.const [])
      | some s => exact (iha s rfl).2 n
    constructor
    · intro n
      simp only [outcome_branch, Setting.target_withIndent, Setting.indent_withIndent]
      exact .bind_const _ fun t => (ihc.1 n.inIf).bind fun _ hlines => (hrest n.inIf).bind
        fun _ hrest => .ok (.framed _ (((hlines.body.cons _).append hrest).append (.const ["fi"])))
    · intro n
      simp only [outcome_emitAlternate_branch, Setting.target_withIndent, Setting.indent_withIndent]
      exact .bind_const _ fun t => (ihc.1 n).bind fun _ hlines => (hrest n).bind
        fun _ hrest => .ok ((hlines.body.cons _).append hrest)
  | function name params body span ih =>
    refine uniform_and_of_ne_branch nofun fun n => ?_
    simp only [outcome_function, Setting.indent_withIndent]
    exact .bind_const _ fun locals =>
      (uniform_emitFunction (fun s hs => (ih s hs).1) n.inFunction).bind fun _ hlines =>
        .ok ((((IsLevel.const locals).append hlines).body.cons _).append (.const _))
  | ret argument span =>
    refine uniform_and_of_ne_branch nofun fun n => ?_
    simp only [outcome_ret, Setting.target_withIndent]
    split
    · exact .error _
    · split
      · exact .const _
      · exact .ok (.const _)
  | declaration kind declarators span =>
    refine uniform_and_of_ne_branch nofun fun n => ?_
    simp only [outcome_declaration, Setting.target_withIndent]
    exact .const _
  | switch discriminant cases span ih =>
    refine uniform_and_of_ne_branch nofun fun n => ?_
    simp only [outcome_switch, Setting.target_withIndent]
    exact .bind_const _ fun d =>
      (SwitchCase.uniform_emitAll (fun c hc s hs => (ih c hc s hs).1) n.inSwitch [] false).bind
        fun _ harms => .ok (((harms.1.cons _).append harms.default).append (.const ["esac"]))
  | importModule source span =>
    refine uniform_and_of_ne_branch nofun fun n => ?_
    simp only [outcome_importModule, Setting.modules_withIndent]
    exact .const _
  | exit span =>
    refine uniform_and_of_ne_branch nofun fun n => ?_
    simp only [outcome_exit]
    exact .error _
  | unsupported kind span =>
    refine uniform_and_of_ne_branch nofun fun n => ?_
    simp only [outcome_unsupported]
    exact .error _

end Stmt

/-- **The indentation unit is layout only.** For a statement, in a setting
and a nesting, there is one fault or one list of texts with depths, and
whatever the unit is, the statement fails with that fault or becomes the
lines with those texts, each behind the indentation of its depth. -/
theorem indentation_is_layout (s : Stmt) (w : Setting) (n : Nesting) :
    (∃ fault, ∀ unit, ((s.emit (w.withIndent unit)).runFrom n).1 = .error fault)
      ∨ ∃ plan : List (Nat × String), ∀ unit,
        ((s.emit (w.withIndent unit)).runFrom n).1 = .ok (plan.map fun line =>
          if line.2 = "" then "" else indentation unit line.1 ++ line.2) := by
  obtain hfault | ⟨lines, ⟨plan, hplan⟩, hlines⟩ := (s.uniform_and w).1 n
  · exact .inl hfault
  · exact .inr ⟨plan, fun unit => (hlines unit).trans (congrArg _ (hplan unit))⟩

end ScriptToShell
