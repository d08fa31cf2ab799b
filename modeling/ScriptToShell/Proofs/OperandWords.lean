import ScriptToShell.Proofs.Operands
import ScriptToShell.Proofs.ScriptNames
import ScriptToShell.Proofs.WordsInLines

/-!
# Operands in a script

Each variable and each literal that a program computes with is a word of its
script. A variable is expanded between quotes, a literal stands between quotes
as it is, and a number that is passed to a command may stand bare. A literal
that is tested is an exception, since the outcome is known.

An expression puts the words of its parts between texts of its own
(`Transcribes.shownIn`), and a statement puts them on lines (`Stmt.isShown`). An arm of
a switch is left out if another default follows, so there may be one default
only. The main statement is `Program.no_operand_vanishes`.
-/

namespace ScriptToShell

open Emit Emission Shell

/-! ## Operands in lines -/

/-- The word that an operand is written as, unless it is made up of others. -/
def Occurrence.words (o : Occurrence) : List String :=
  match o.expr with
  | .identifier name _ => ["\"$" ++ name ++ "\""]
  | .literal value _ =>
    if o.usage = .test then []
    else [if o.usage = .argument ∧ value.isBare then value.text else "\"" ++ value.text ++ "\""]
  | _ => []

/-- Lines that have the word of an operand. -/
def Occurrence.ShownIn (lines : List String) (o : Occurrence) : Prop :=
  ∀ word ∈ o.words, HasWord word lines

/-- **A position whose operands are in lines.** -/
def Position.ShownIn (lines : List String) (x : Position) : Prop :=
  ∀ o ∈ x.operands, o.ShownIn lines

theorem Position.ShownIn.mono {x : Position} {lines lines' : List String} (h : x.ShownIn lines)
    (hlines : ∀ word, HasWord word lines → HasWord word lines') : x.ShownIn lines' :=
  fun o ho word hword => hlines word (h o ho word hword)

/-- **An expression that is in lines as an operand**, and with it the operands
below it. -/
structure Expr.ShownIn (role : Role) (usage : Usage) (lines : List String) (e : Expr) : Prop where
  /-- The word of the expression, if it has one of its own. -/
  own : Occurrence.ShownIn lines ⟨e, usage⟩
  /-- The operands in it. -/
  below : ∀ x ∈ e.positions role, x.ShownIn lines

/-! ## Expressions -/

namespace Expr

section Parts

variable {role : Role} {usage : Usage} {span : Span} {lines : List String}

theorem ShownIn.mono {e : Expr} {lines' : List String} (h : e.ShownIn role usage lines)
    (hlines : ∀ word, HasWord word lines → HasWord word lines') : e.ShownIn role usage lines' :=
  ⟨fun word hword => hlines word (h.own word hword), fun x hx => (h.below x hx).mono hlines⟩

theorem shownIn_identifier {name : String} (h : HasWord ("\"$" ++ name ++ "\"") lines) :
    (identifier name span).ShownIn role usage lines where
  own := List.forall_mem_singleton.2 h
  below := List.forall_mem_singleton.2 (List.forall_mem_nil _)

theorem shownIn_literal {value : Literal}
    (h : usage ≠ .test → HasWord
      (if usage = .argument ∧ value.isBare then value.text else "\"" ++ value.text ++ "\"") lines) :
    (literal value span).ShownIn role usage lines where
  own := by
    show ∀ word ∈ if usage = .test then _ else _, _
    split
    · exact List.forall_mem_nil _
    · rename_i htest
      exact List.forall_mem_singleton.2 (h htest)
  below := List.forall_mem_singleton.2 (List.forall_mem_nil _)

theorem shownIn_binary {op : BinaryOp} {left right : Expr}
    (hleft : left.ShownIn .value .word lines) (hright : right.ShownIn .value .word lines) :
    (binary op left right span).ShownIn role usage lines where
  own := List.forall_mem_nil _
  below := by
    rw [positions_binary, List.forall_mem_cons, List.forall_mem_append]
    refine ⟨List.forall_mem_cons.2 ⟨hleft.own, ?_⟩, hleft.below, hright.below⟩
    exact List.forall_mem_singleton.2 hright.own

theorem shownIn_logical {op : LogicalOp} {left right : Expr}
    (hleft : left.ShownIn .condition .test lines) (hright : right.ShownIn .condition .test lines) :
    (logical op left right span).ShownIn role usage lines where
  own := List.forall_mem_nil _
  below := by
    rw [positions_logical, List.forall_mem_cons, List.forall_mem_append]
    refine ⟨List.forall_mem_cons.2 ⟨hleft.own, ?_⟩, hleft.below, hright.below⟩
    exact List.forall_mem_singleton.2 hright.own

theorem shownIn_not {argument : Expr} (h : argument.ShownIn .condition .test lines) :
    (not argument span).ShownIn role usage lines where
  own := List.forall_mem_nil _
  below := by
    rw [positions_not, List.forall_mem_cons]
    exact ⟨List.forall_mem_singleton.2 h.own, h.below⟩

/-- The name of a command is no operand. -/
theorem shownIn_command {name : String} {s : Span} {arguments : List Expr}
    (h : ∀ e ∈ arguments, e.ShownIn .value .argument lines) :
    (call (.identifier name s) arguments span).ShownIn role usage lines where
  own := List.forall_mem_nil _
  below := by
    rw [positions_call, List.forall_mem_cons, List.forall_mem_append, forall_partsAll]
    refine ⟨List.forall_mem_map.2 fun e he => (h e he).own, ?_, fun e he => (h e he).below⟩
    exact List.forall_mem_singleton.2 (List.forall_mem_nil _)

/-- Neither is the object of a method that prints. -/
theorem shownIn_print {property : String} {s s' : Span} {arguments : List Expr}
    (h : ∀ e ∈ arguments, e.ShownIn .value .word lines) :
    (call (.member (.identifier "console" s') property s) arguments span).ShownIn role usage
      lines where
  own := List.forall_mem_nil _
  below := by
    rw [positions_call, positions_member, List.forall_mem_cons, List.forall_mem_append,
      List.forall_mem_cons, forall_partsAll]
    refine ⟨List.forall_mem_cons.2 ⟨List.forall_mem_nil _, ?_⟩, ⟨List.forall_mem_nil _, ?_⟩,
      fun e he => (h e he).below⟩
    · exact List.forall_mem_map.2 fun e he => (h e he).own
    · exact List.forall_mem_singleton.2 (List.forall_mem_nil _)

/-- Nor is there an operand in the path of the running script. -/
theorem shownIn_member {object : Expr} {property path : String}
    (h : memberText object property span = .ok path) :
    (member object property span).ShownIn role usage lines where
  own := List.forall_mem_nil _
  below := by
    cases object with
    | metaProperty owner own s =>
      rw [positions_member, List.forall_mem_cons]
      refine ⟨?_, List.forall_mem_singleton.2 (List.forall_mem_nil _)⟩
      rw [Position.ShownIn, Position.operands, if_neg fun hboth => Bool.false_ne_true hboth.2]
      exact List.forall_mem_singleton.2 (List.forall_mem_nil _)
    | _ => cases h

end Parts

/-- Both words of an operation are between texts of its own. -/
theorem shownIn_operation {role : Role} {usage : Usage} {op : BinaryOp} {left right : Expr}
    {span : Span} {l r : String} (hleft : left.ShownIn .value .word [l])
    (hright : right.ShownIn .value .word [r]) (before o after : String) :
    (binary op left right span).ShownIn role usage
      [before ++ l ++ " " ++ o ++ " " ++ r ++ after] := by
  refine shownIn_binary (hleft.mono fun word hword => ?_) (hright.mono fun word hword => ?_)
  · exact (((((hword.behind before).before " ").before o).before " ").before r).before after
  · exact (hword.behind _).before after

/-- The outcome of a test has no word of its own. -/
theorem ShownIn.of_isTest {role : Role} {usage usage' : Usage} {lines : List String} {e : Expr}
    (h : e.ShownIn role usage lines) (he : e.isTest = true) : e.ShownIn role usage' lines where
  own := by cases e <;> first | exact List.forall_mem_nil _ | cases he
  below := h.below

/-- An argument is written as a value, unless it is a number that stands bare. -/
theorem ShownIn.argument {role : Role} {lines : List String} {e : Expr}
    (h : e.ShownIn role .word lines) (he : e.isBareNumber = false) :
    e.ShownIn role .argument lines where
  own := by
    have hsame : Occurrence.words ⟨e, .argument⟩ = Occurrence.words ⟨e, .word⟩ := by
      cases e with
      | literal value s =>
        have hnot : value.isBare = false := by
          cases value with
          | number n => exact he
          | _ => rfl
        simp [Occurrence.words, hnot]
      | _ => rfl
    rw [Occurrence.ShownIn, hsame]
    exact h.own
  below := h.below

end Expr

/-- A piece whose operands are in lines. -/
def Piece.ShownIn (lines : List String) : Piece → Prop
  | .value e => ∀ role, e.ShownIn role .word lines
  | .argument e => e.ShownIn .value .argument lines
  | .arguments es => ∀ e ∈ es, e.ShownIn .value .argument lines
  | .prints _ es => ∀ e ∈ es, e.ShownIn .value .word lines
  | .command callee es span => ∀ role usage, (Expr.call callee es span).ShownIn role usage lines
  | .test e => ∀ role, e.ShownIn role .test lines

open ScriptToShell.Expr

/-- **The text of a piece has the words of its operands.** -/
theorem Transcribes.shownIn {target : Target} {p : Piece} {text : String}
    (h : Transcribes (isName · = true) target p text) : p.ShownIn [text] := by
  induction h with
  | reference h => exact fun _ => shownIn_identifier (unbroken_reference h).hasWord
  | @quoted value span h =>
    obtain ⟨-, hword⟩ := unbroken_literal (literalText_eq span h)
    exact fun _ => shownIn_literal fun _ => hword.hasWord
  | property h => exact fun _ => shownIn_member h
  | arithmetic _ _ _ ihl ihr =>
    exact fun _ => shownIn_operation (ihl .value) (ihr .value) "$(( " _ " ))"
  | boolean he _ ih =>
    exact fun role => ((ih role).of_isTest he).mono fun _ hword => (hword.behind _).before _
  | substitution _ ih =>
    exact fun role => (ih role .word).mono fun _ hword => (hword.behind _).before _
  | number h =>
    refine shownIn_literal fun _ => ?_
    rw [if_pos ⟨rfl, h⟩]
    exact (unbroken_bare h).hasWord
  | word he _ ih => exact (ih .value).argument he
  | last _ ih => exact List.forall_mem_singleton.2 ih
  | more _ _ iha ihas =>
    refine List.forall_mem_cons.2 ⟨iha.mono fun _ hword => (hword.before " ").before _, ?_⟩
    exact fun e he => (ihas e he).mono fun _ hword => hword.behind _
  | name _ => exact fun _ _ => shownIn_command (List.forall_mem_nil _)
  | call _ _ ih =>
    exact fun _ _ => shownIn_command fun e he => (ih e he).mono fun _ hword => hword.behind _
  | echo h =>
    obtain ⟨⟨s, rfl⟩, -⟩ := (redirection?_isSome _ _).1 (Option.isSome_of_eq_some h)
    exact fun _ _ => shownIn_print (List.forall_mem_nil _)
  | prints h _ ih =>
    obtain ⟨⟨s, rfl⟩, -⟩ := (redirection?_isSome _ _).1 (Option.isSome_of_eq_some h)
    exact fun _ _ => shownIn_print ih
  | line _ _ ih =>
    exact List.forall_mem_singleton.2
      ((ih .value).mono fun _ hword => (hword.behind _).before _)
  | lines _ _ _ ihv iht =>
    refine List.forall_mem_cons.2 ⟨(ihv .value).mono fun _ hword => ?_, ?_⟩
    · exact (((hword.behind _).before _).before "\n").before _
    · exact fun e he => (iht e he).mono fun _ hword => hword.behind _
  | comparison _ _ _ ihl ihr =>
    exact fun _ => shownIn_operation (ihl .value) (ihr .value) "[ " _ " ]"
  | nonzero _ _ ih =>
    refine fun role => ⟨List.forall_mem_nil _, ?_⟩
    exact ((ih role).mono fun _ hword => (hword.behind _).before _).below
  | referenceTest h =>
    exact fun _ => shownIn_identifier (((unbroken_reference h).hasWord.behind _).before _)
  | propertyTest h => exact fun _ => shownIn_member h
  | constant => exact fun _ => shownIn_literal fun htest => absurd rfl htest
  | status _ ih => exact fun role => ih role .test
  | @logical op left right span l r _ _ ihl ihr =>
    refine fun _ => shownIn_logical ((ihl .condition).mono fun _ hword => ?_)
      ((ihr .condition).mono fun _ hword => (hword.bracedIf _).behind _)
    exact ((((hword.bracedIf _).before " ").before op.token).before " ").before _
  | negated _ ih =>
    exact fun _ => shownIn_not
      ((ih .condition).mono fun _ hword => (hword.bracedIf _).behind _)

/-! ## Statements -/

/-- **A regular position**: its name is one for a shell, and
a switch has one default at most. -/
def Position.Regular (x : Position) : Prop := x.Named (isName · = true) ∧ x.SingleDefault

theorem Position.unflagged_regular : Unflagged Regular where
  statement e' h := ⟨(unflagged_named _).statement e' h.1, unflagged_singleDefault.statement e' h.2⟩
  switchCase _ h := h

section Regular

variable {target : Target} {role : Role} {e : Expr} (h : ∀ x ∈ e.positions role, x.Regular)
include h

theorem Expr.shownIn_value {v : String} (hv : e.value target = .ok v) :
    e.ShownIn role .word [v] :=
  ((e.transcribes target role fun x hx => (h x hx).1).1 v hv).shownIn role

theorem Expr.shownIn_condition {t : String} (ht : e.condition target = .ok t) :
    e.ShownIn role .test [t] :=
  ((e.transcribes target role fun x hx => (h x hx).1).2 t ht).shownIn role

end Regular

namespace Stmt

variable {w : Setting} {f : Bool} {n : Nesting}

/-- **A statement whose operands are in its lines**, on its own and as an
alternate. -/
def IsShown (w : Setting) (s : Stmt) : Prop :=
  ∀ (f : Bool) (n : Nesting), (∀ x ∈ s.positions f, x.Regular) →
    (∀ lines, outcome (s.emit w) n = .ok lines → ∀ x ∈ s.positions f, x.ShownIn lines)
    ∧ ∀ lines, outcome (emitAlternate w (some s)) n = .ok lines →
      ∀ x ∈ s.positions f, x.ShownIn lines

theorem isShown_of_ne_branch {s : Stmt}
    (hs : ∀ test consequent alternate span, s ≠ .branch test consequent alternate span)
    (h : ∀ (f : Bool) (n : Nesting), (∀ x ∈ s.positions f, x.Regular) → ∀ lines,
      outcome (s.emit w) n = .ok lines → ∀ x ∈ s.positions f, x.ShownIn lines) :
    IsShown w s := by
  refine fun f n hregular => ⟨h f n hregular, fun lines hlines x hx => ?_⟩
  rw [outcome_emitAlternate_else w n hs] at hlines
  obtain ⟨body, hbody, rfl⟩ := map_eq_ok_iff.1 hlines
  exact (h f n hregular body hbody x hx).mono fun word hword =>
    (hword.body w.options.indent).append_right ["else"]

/-- The lines of a statement before those of others. -/
theorem shownIn_cons {s : Stmt} {ss : List Stmt} (hs : IsShown w s)
    (hregular : ∀ x ∈ s.positions f, x.Regular) {tail : Except Fault (List String)}
    (htail : ∀ rest, tail = .ok rest → ∀ s ∈ ss, ∀ x ∈ s.positions f, x.ShownIn rest)
    {lines : List String}
    (hlines : (do
      let first ← outcome (s.emit w) n
      let rest ← tail
      return first ++ rest) = .ok lines) :
    ∀ s' ∈ s :: ss, ∀ x ∈ s'.positions f, x.ShownIn lines := by
  obtain ⟨first, rest, hfirst, hrest, rfl⟩ := bind₂_eq_ok_iff.1 hlines
  refine List.forall_mem_cons.2 ⟨fun x hx => ?_, fun s' hs' x hx => ?_⟩
  · exact ((hs f n hregular).1 first hfirst x hx).mono fun _ hword => hword.append_left rest
  · exact (htail rest hrest s' hs' x hx).mono fun _ hword => hword.append_right first

theorem shownIn_ret {value : Expr} {span : Span} {lines : List String}
    (h : value.ShownIn .value .word lines) :
    ∀ x ∈ (ret (some value) span).positions f, x.ShownIn lines := by
  rw [positions, parts, List.forall_mem_cons]
  exact ⟨List.forall_mem_singleton.2 h.own, h.below⟩

theorem shownIn_echoLine {value : Expr} (h : ∀ x ∈ value.positions .value, x.Regular)
    {line : String} (hline : echoLine w.options.target value = .ok line) :
    value.ShownIn .value .word [line] := by
  obtain ⟨v, hv, rfl⟩ := map_eq_ok_iff.1 hline
  exact (Expr.shownIn_value h hv).mono fun _ hword => hword.behind "echo "

section Lists

variable {stmts : List Stmt} (h : ∀ s ∈ stmts, IsShown w s)
  (hregular : ∀ s ∈ stmts, ∀ x ∈ s.positions f, x.Regular) {lines : List String}
include h hregular

theorem shownIn_emitAll (hlines : outcome (emitAll w stmts) n = .ok lines) :
    ∀ s ∈ stmts, ∀ x ∈ s.positions f, x.ShownIn lines := by
  induction stmts generalizing lines with
  | nil => exact List.forall_mem_nil _
  | cons s ss ih =>
    rw [List.forall_mem_cons] at h hregular
    rw [outcome_emitAll_cons] at hlines
    exact shownIn_cons h.1 hregular.1 (fun rest hrest => ih h.2 hregular.2 hrest) hlines

theorem shownIn_emitFunction (hlines : outcome (emitFunction w stmts) n = .ok lines) :
    ∀ s ∈ stmts, ∀ x ∈ s.positions f, x.ShownIn lines := by
  induction stmts generalizing lines with
  | nil => exact List.forall_mem_nil _
  | cons s ss ih =>
    rw [List.forall_mem_cons] at h hregular
    obtain ⟨value, span, rfl, rfl⟩ | hcons := lastReturn_or s ss
    · rw [outcome_emitFunction_ret] at hlines
      obtain ⟨line, hline, rfl⟩ := map_eq_ok_iff.1 hlines
      have hvalue := (List.forall_mem_cons.1 hregular.1).2
      rw [parts] at hvalue
      exact List.forall_mem_singleton.2 (shownIn_ret (shownIn_echoLine hvalue hline))
    · rw [outcome_emitFunction_cons w n hcons] at hlines
      exact shownIn_cons h.1 hregular.1 (fun rest hrest => ih h.2 hregular.2 hrest) hlines

end Lists

theorem shownIn_declarators {declarators : List Declarator}
    (h : ∀ d ∈ declarators, ∀ x ∈ d.positions, x.Regular) {lines : List String}
    (hlines : declarators.mapM (declaratorLine w.options.target) = .ok lines) :
    ∀ d ∈ declarators, ∀ e ∈ d.init, e.ShownIn .value .word lines := by
  intro d hd e he
  obtain ⟨line, hmem, hline⟩ := exists_of_mapM_eq_ok hlines hd
  obtain ⟨target, init⟩ := d
  cases he
  cases target with
  | identifier name span =>
    obtain ⟨v, hv, rfl⟩ := map_eq_ok_iff.1 hline
    have hvalue := (List.forall_mem_cons.1 (h _ hd)).2
    exact (Expr.shownIn_value hvalue hv).mono fun _ hword => (hword.behind _).of_mem hmem
  | unsupported kind span => cases hline

end Stmt

/-! ## Switches -/

theorem mem_withoutExit {stmts : List Stmt} {s : Stmt} (h : s ∈ stmts)
    (hs : ∀ span, s ≠ .exit span) : s ∈ withoutExit stmts := by
  induction stmts with
  | nil => cases h
  | cons s' ss ih =>
    obtain ⟨span, rfl, rfl⟩ | hcons := Stmt.lastExit_or s' ss
    · exact absurd (List.mem_singleton.1 h) (hs span)
    · rw [withoutExit.eq_3 s' ss hcons]
      rcases List.mem_cons.1 h with rfl | hmem
      · exact List.mem_cons_self
      · exact List.mem_cons_of_mem s' (ih hmem)

/-- A case whose operands are in lines. -/
structure SwitchCase.ShownIn (f : Bool) (lines : List String) (c : SwitchCase) : Prop where
  /-- Its test. -/
  test : ∀ e ∈ c.test, e.ShownIn .value .word lines
  /-- Its statements. -/
  consequent : ∀ s ∈ c.consequent, ∀ x ∈ s.positions f, x.ShownIn lines

theorem SwitchCase.ShownIn.mono {f : Bool} {lines lines' : List String} {c : SwitchCase}
    (h : c.ShownIn f lines) (hlines : ∀ word, HasWord word lines → HasWord word lines') :
    c.ShownIn f lines' :=
  ⟨fun e he => (h.test e he).mono hlines, fun s hs x hx => (h.consequent s hs x hx).mono hlines⟩

/-- Every arm is somewhere among the arms of a script. -/
theorem mem_defaultLast {own : List ArmOfGroup} {p : ArmOfGroup} (h : p ∈ own) :
    p ∈ defaultLast own := by
  cases hdefault : p.1.hasDefault with
  | false => exact List.mem_append_left _ (List.mem_filter.2 ⟨h, by simp [hdefault]⟩)
  | true => exact List.mem_append_right _ (List.mem_filter.2 ⟨h, hdefault⟩)

/-- **The lines of an arm have the operands of its group.** -/
theorem CaseGroup.Becomes.shownIn {w : Setting} {n : Nesting} {f : Bool} {g : CaseGroup}
    {a : CaseArm} (hbecomes : g.Becomes w n a)
    (h : ∀ c ∈ g.cases, ∀ s ∈ c.consequent, s.IsShown w)
    (hregular : ∀ c ∈ g.cases, (∀ x ∈ Expr.positions? c.test, x.Regular)
      ∧ ∀ s ∈ c.consequent, ∀ x ∈ s.positions f, x.Regular) (unit : Indent) :
    ∀ c ∈ g.cases, c.ShownIn f (a.lines unit) := by
  intro c hc
  refine ⟨fun e he => ?_, fun s hs x hx => ?_⟩
  · obtain ⟨label, hmem, hlabel⟩ := exists_of_mapM_eq_ok hbecomes.labels hc
    have htest := (hregular c hc).1
    rw [Option.mem_def.1 he] at hlabel htest
    refine (Expr.shownIn_value htest hlabel).mono fun word hword => ?_
    have hline := ((hword.of_mem hmem).joinWith "|").before ")"
    exact ((hline.indentLines unit).append_left _).append_left _
  · have hlast : g.last ∈ g.cases := List.mem_append_right g.shared (List.mem_singleton_self _)
    rcases List.mem_append.1 hc with hshared | hown
    · rw [g.shared_empty c hshared] at hs
      cases hs
    · obtain rfl := List.mem_singleton.1 hown
      by_cases hexit : ∃ span, s = .exit span
      · obtain ⟨span, rfl⟩ := hexit
        rw [Stmt.positions, Stmt.parts] at hx
        obtain rfl := List.mem_singleton.1 hx
        exact List.forall_mem_nil _
      · have hbody := Stmt.shownIn_emitAll
          (fun s hs => h g.last hlast s (mem_of_mem_withoutExit hs))
          (fun s hs => (hregular g.last hlast).2 s (mem_of_mem_withoutExit hs)) hbecomes.body s
          (mem_withoutExit hs fun span hspan => hexit ⟨span, hspan⟩) x hx
        refine hbody.mono fun word hword => ?_
        exact (((hword.indentLines unit).indentLines unit).append_right
          [indentLine unit _]).append_left [indentLine unit ";;"]

namespace Stmt

/-- **The lines of a switch have the operands of its cases.** -/
theorem shownIn_switch {w : Setting} {f : Bool} {n : Nesting} {discriminant : Expr}
    {cases : List SwitchCase} {span : Span}
    (h : ∀ c ∈ cases, ∀ s ∈ SwitchCase.consequent c, s.IsShown w)
    (hregular : ∀ x ∈ (switch discriminant cases span).positions f, x.Regular)
    {lines : List String}
    (hlines : outcome ((switch discriminant cases span).emit w) n = .ok lines) :
    ∀ x ∈ (switch discriminant cases span).positions f, x.ShownIn lines := by
  obtain ⟨hown, hdiscriminant, hcases⟩ :=
    (forall_mem_positions_switch Position.unflagged_regular).1 hregular
  obtain ⟨word, own, hword, hsplits, hbecomes, -, rfl⟩ := exists_arms_of_switch hown.2 hlines
  have hshown := (Expr.shownIn_value hdiscriminant hword).mono fun _ hin =>
    (((hin.behind "case ").before " in").append_left
      (linesOfArms w.options.indent (defaultLast own))).append_left ["esac"]
  have hcase : ∀ c ∈ cases, c.ShownIn f (("case " ++ word ++ " in")
      :: linesOfArms w.options.indent (defaultLast own) ++ ["esac"]) := by
    intro c hc
    rw [← hsplits.flatMap_eq] at hc
    obtain ⟨g, hg, hc⟩ := List.mem_flatMap.1 hc
    obtain ⟨p, hp, rfl⟩ := List.mem_map.1 hg
    have hmem : ∀ c' ∈ p.1.cases, c' ∈ cases := fun c' hc' =>
      hsplits.flatMap_eq ▸ List.mem_flatMap.2 ⟨p.1, hg, hc'⟩
    have hin := (hbecomes p hp).shownIn (fun c' hc' => h c' (hmem c' hc'))
      (fun c' hc' => (hcases c' (hmem c' hc')).2) w.options.indent c hc
    have hsub : p.2.lines w.options.indent ⊆ linesOfArms w.options.indent (defaultLast own) :=
      fun line hline => List.mem_flatMap.2 ⟨p, mem_defaultLast hp, hline⟩
    exact hin.mono fun _ hin => ((hin.mono hsub).append_right [_]).append_left ["esac"]
  refine (forall_mem_positions_switch (Position.unflagged_operands _)).2
    ⟨List.forall_mem_singleton.2 hshown.own, hshown.below, fun c hc => ⟨?_, ?_, ?_⟩⟩
  · exact List.forall_mem_map.2 fun e he => ((hcase c hc).test e (Option.mem_toList.1 he)).own
  · exact Expr.forall_positions?.2 fun e he => ((hcase c hc).test e he).below
  · exact (hcase c hc).consequent

/-- **Every statement has its operands in its lines.** -/
theorem isShown (w : Setting) (s : Stmt) : IsShown w s := by
  induction s using Stmt.induction_on with
  | block body span ih =>
    refine isShown_of_ne_branch (by simp) fun f n hregular lines hlines => ?_
    rw [outcome_block] at hlines
    rw [forall_mem_positions_block] at hregular ⊢
    exact ⟨List.forall_mem_nil _, shownIn_emitAll ih hregular.2 hlines⟩
  | empty span =>
    refine isShown_of_ne_branch (by simp) fun f n _ lines _ => ?_
    rw [positions, parts]
    exact List.forall_mem_singleton.2 (List.forall_mem_nil _)
  | expression value span =>
    refine isShown_of_ne_branch (by simp) fun f n hregular lines hlines => ?_
    rw [positions, parts, List.forall_mem_cons] at hregular ⊢
    rw [outcome_expression] at hlines
    cases value with
    | call callee arguments s =>
      obtain ⟨text, htext, rfl⟩ := map_eq_ok_iff.1 hlines
      have htranscribes := Expr.transcribes_call (fun x hx => (hregular.2 x hx).1) htext
      have hshown := (htranscribes.shownIn .value .word).mono fun _ hword => hword.splitText
      exact ⟨List.forall_mem_singleton.2 hshown.own, hshown.below⟩
    | unsupported kind s => cases hlines
    | _ => cases hlines
  | branch test consequent alternate span ihc iha =>
    refine fun f n hregular => ?_
    obtain ⟨-, htest, hconsequent, halternate⟩ := forall_mem_positions_branch.1 hregular
    -- the rest of the chain is the same whether the branch opens it or not
    have hchain : ∀ (n : Nesting) (opening t : String) (lines others : List String),
        test.condition w.options.target = .ok t → outcome (consequent.emit w) n = .ok lines →
        outcome (emitAlternate w alternate) n = .ok others →
        ∀ x ∈ (branch test consequent alternate span).positions f,
          x.ShownIn ((opening ++ t ++ "; then") :: body w.options.indent lines ++ others) := by
      intro n opening t lines others ht hlines hothers
      have hshown := (Expr.shownIn_condition htest ht).mono fun _ hword =>
        (((hword.behind opening).before "; then").append_left
          (body w.options.indent lines)).append_left others
      refine forall_mem_positions_branch.2
        ⟨List.forall_mem_singleton.2 hshown.own, hshown.below, fun x hx => ?_, fun s hs x hx => ?_⟩
      · exact ((ihc f n hconsequent).1 lines hlines x hx).mono fun _ hword =>
          ((hword.body w.options.indent).append_right [_]).append_left others
      · cases hs
        exact ((iha s rfl f n (halternate s rfl)).2 others hothers x hx).mono fun _ hword =>
          hword.append_right _
    refine ⟨fun lines hlines x hx => ?_, fun lines hlines => ?_⟩
    · rw [outcome_branch] at hlines
      obtain ⟨t, body, others, ht, hbody, hothers, rfl⟩ := bind₃_eq_ok_iff.1 hlines
      exact (hchain n.inIf "if " t body others ht hbody hothers x hx).mono fun _ hword =>
        (hword.append_left ["fi"]).framed _
    · rw [outcome_emitAlternate_branch] at hlines
      obtain ⟨t, body, others, ht, hbody, hothers, rfl⟩ := bind₃_eq_ok_iff.1 hlines
      exact hchain n "elif " t body others ht hbody hothers
  | function name params body span ih =>
    refine isShown_of_ne_branch (by simp) fun f n hregular lines hlines => ?_
    rw [forall_mem_positions_function] at hregular ⊢
    rw [outcome_function] at hlines
    obtain ⟨locals, rest, -, hrest, rfl⟩ := bind₂_eq_ok_iff.1 hlines
    refine ⟨List.forall_mem_nil _, List.forall_mem_map.2 fun _ _ => List.forall_mem_nil _, ?_⟩
    intro s hs x hx
    exact (shownIn_emitFunction ih hregular.2.2 hrest s hs x hx).mono fun _ hword =>
      (((hword.append_right locals).body w.options.indent).append_right [_]).append_left _
  | ret argument span =>
    refine isShown_of_ne_branch (by simp) fun f n hregular lines hlines => ?_
    rw [outcome_ret] at hlines
    split at hlines
    · cases hlines
    · cases argument with
      | none =>
        rw [positions, parts]
        exact List.forall_mem_singleton.2 (List.forall_mem_nil _)
      | some value =>
        obtain ⟨line, hline, rfl⟩ := map_eq_ok_iff.1 hlines
        rw [positions, parts, List.forall_mem_cons] at hregular
        exact shownIn_ret ((shownIn_echoLine hregular.2 hline).mono fun _ hword =>
          hword.append_left ["return"])
  | declaration kind declarators span =>
    refine isShown_of_ne_branch (by simp) fun f n hregular lines hlines => ?_
    rw [positions, parts, List.forall_mem_cons, List.forall_mem_flatMap] at hregular ⊢
    rw [outcome_declaration] at hlines
    have hshown := shownIn_declarators hregular.2 hlines
    refine ⟨List.forall_mem_map.2 fun e he => ?_, fun d hd => ?_⟩
    · obtain ⟨d, hd, hinit⟩ := List.mem_filterMap.1 he
      exact (hshown d hd e hinit).own
    · exact List.forall_mem_cons.2 ⟨List.forall_mem_nil _,
        Expr.forall_positions?.2 fun e he => (hshown d hd e he).below⟩
  | switch discriminant cases span ih =>
    refine isShown_of_ne_branch (by simp) fun f n hregular lines hlines => ?_
    exact shownIn_switch ih hregular hlines
  | importModule source span =>
    refine isShown_of_ne_branch (by simp) fun f n _ lines _ => ?_
    rw [positions, parts]
    exact List.forall_mem_singleton.2 (List.forall_mem_nil _)
  | exit span =>
    refine isShown_of_ne_branch (by simp) fun f n _ lines hlines => ?_
    rw [outcome_exit] at hlines
    cases hlines
  | unsupported kind span =>
    refine isShown_of_ne_branch (by simp) fun f n _ lines hlines => ?_
    rw [outcome_unsupported] at hlines
    cases hlines

theorem shownIn_chunks {w : Setting} {n : Nesting} {stmts : List Stmt}
    (hregular : ∀ s ∈ stmts, ∀ x ∈ s.positions false, x.Regular) {chunks : List String}
    (hchunks : outcome (Stmt.chunks w stmts) n = .ok chunks) :
    ∀ s ∈ stmts, ∀ x ∈ s.positions false, x.ShownIn chunks := by
  intro s hs x hx
  rw [outcome_chunks_eq_mapM] at hchunks
  obtain ⟨emitted, hemitted, rfl⟩ := map_eq_ok_iff.1 hchunks
  obtain ⟨lines, hmem, hlines⟩ := exists_of_mapM_eq_ok hemitted hs
  exact ((isShown w s false n (hregular s hs)).1 lines hlines x hx).mono fun _ hword =>
    (hword.joinWith "\n").of_mem (List.mem_map_of_mem hmem)

end Stmt

/-! ## Programs -/

namespace Program

/-- **No operand vanishes from the script.** If the names of a program are names
for a shell and its switches have one default at most, then its script, if there
is one, has each variable between quotes, be it in any role but that of a command
and of the object whose methods print. It has each literal between quotes as it
is, unless it is tested; a number that is passed to a command stands bare if it
may. -/
theorem no_operand_vanishes (w : Setting) (p : Program) (chunks : List String)
    (hnames : ∀ name ∈ p.names, isName name = true) (hone : Position.Lossless p.positions)
    (hchunks : p.chunks w = .ok chunks) :
    (∀ name span role, .expression (.identifier name span) role ∈ p.positions →
        role ≠ .callee → (role = .object → name ≠ "console") →
        ("\"$" ++ name ++ "\"").toList <:+: (Shell.script w.options chunks).toList)
      ∧ (∀ value span role, .expression (.literal value span) role ∈ p.positions →
        role ≠ .condition → ∃ usage, ⟨.literal value span, usage⟩ ∈ p.operands ∧ usage ≠ .test)
      ∧ ∀ value span usage, ⟨.literal value span, usage⟩ ∈ p.operands → usage ≠ .test →
        (if usage = .argument ∧ value.isBare then value.text
          else "\"" ++ value.text ++ "\"").toList <:+: (Shell.script w.options chunks).toList := by
  have hnamed := Stmt.forall_partsAll.1 (Stmt.forall_namesAll.1 hnames)
  have hsingle := Stmt.forall_partsAll.1 hone
  have hshown := Stmt.forall_partsAll.2 (Stmt.shownIn_chunks (n := {})
    (fun s hs x hx => ⟨hnamed s hs x hx, hsingle s hs x hx⟩) hchunks)
  have hscript : ∀ o ∈ p.operands, ∀ word ∈ o.words,
      word.toList <:+: (Shell.script w.options chunks).toList := by
    intro o ho word hword
    obtain ⟨x, hx, ho⟩ := List.mem_flatMap.1 ho
    exact (hshown x hx o ho word hword).script w.options
  refine ⟨fun name span role hrole hcallee hobject => ?_, fun value span role hrole htest => ?_,
    fun value span usage ho htest => hscript _ ho _ ?_⟩
  · have hoperand : (Expr.identifier name span).isOperand role = true := by
      cases role with
      | callee => exact absurd rfl hcallee
      | object => simpa [Expr.isOperand, Expr.isConsole] using hobject rfl
      | _ => rfl
    obtain ⟨usage, ho, -⟩ := exists_operand hrole hoperand
    exact hscript _ ho _ (List.mem_singleton_self _)
  · have hoperand : (Expr.literal value span).isOperand role = true := by cases role <;> rfl
    obtain ⟨usage, ho, hiff⟩ := exists_operand hrole hoperand
    exact ⟨usage, ho, mt hiff.1 htest⟩
  · show _ ∈ if usage = .test then [] else [_]
    rw [if_neg htest]
    exact List.mem_singleton_self _

/-- A program with operands of all sorts: a function with a switch, where one arm
calls a command and the other one prints a sum if two tests hold. -/
def operandProgram : Program :=
  let name (text : String) : Expr := .identifier text .nowhere
  let number (text : String) : Expr := .literal (.number text) .nowhere
  let string (text : String) : Expr := .literal (.string text) .nowhere
  let call : Expr := .call (name "g") [number "1", string "two"] .nowhere
  let print : Expr := .call (.member (name "console") "log" .nowhere)
    [.binary .add (name "c") (number "3") .nowhere] .nowhere
  let branch : Stmt := .branch (.logical .and (name "b") (number "0") .nowhere)
    (.expression print .nowhere) none .nowhere
  let first : SwitchCase :=
    .mk (some (string "k")) [.expression call .nowhere, .exit .nowhere] .nowhere
  let switch : Stmt := .switch (name "a") [first, .mk none [branch] .nowhere] .nowhere
  ⟨[.function "f" [.identifier "a" .nowhere] [switch] .nowhere], .nowhere⟩

theorem operandProgram_keeps_operands :
    (∀ name ∈ operandProgram.names, isName name = true)
      ∧ Position.Lossless operandProgram.positions
      ∧ ∃ chunks, operandProgram.chunks .blank = .ok chunks
        ∧ "\"$c\"".toList <:+: (Shell.script {} chunks).toList
        ∧ "1".toList <:+: (Shell.script {} chunks).toList
        ∧ "\"3\"".toList <:+: (Shell.script {} chunks).toList := by
  have hnames : operandProgram.names.all isName = true := by decide
  have hone : Position.Lossless operandProgram.positions := by
    simp [operandProgram, Position.Lossless, Program.positions, Stmt.partsAll, Stmt.parts,
      Stmt.caseParts, Stmt.alternateParts, SwitchCase.partsAll, Expr.positions, Expr.positions?,
      Expr.parts, Expr.partsAll, Position.SingleDefault, SwitchCase.isDefault, SwitchCase.test,
      List.filter_cons]
  have hc : .expression (.identifier "c" .nowhere) .value ∈ operandProgram.positions :=
    List.mem_of_getElem? (show operandProgram.positions[22]? = _ from rfl)
  have hbare : ⟨.literal (.number "1") .nowhere, .argument⟩ ∈ operandProgram.operands :=
    List.mem_of_getElem? (show operandProgram.operands[3]? = _ from rfl)
  have hquoted : ⟨.literal (.number "3") .nowhere, .word⟩ ∈ operandProgram.operands :=
    List.mem_of_getElem? (show operandProgram.operands[12]? = _ from rfl)
  obtain ⟨hreferences, -, hliterals⟩ :=
    no_operand_vanishes .blank operandProgram _ (List.all_eq_true.1 hnames) hone rfl
  exact ⟨List.all_eq_true.1 hnames, hone, _, rfl,
    hreferences "c" .nowhere .value hc (by decide) (by decide),
    hliterals (.number "1") .nowhere .argument hbare (by decide),
    hliterals (.number "3") .nowhere .word hquoted (by decide)⟩

end Program

end ScriptToShell
