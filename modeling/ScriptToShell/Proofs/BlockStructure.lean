import ScriptToShell.Proofs.Block
import ScriptToShell.Proofs.Plain

/-!
# The blocks of generated lines

Statements are written from the inside out: a body is laid out as if it
stood at the margin, its blank lines are cut off, a filler is put in if
nothing is left, and only then is it moved to the right. This module says
what the lines are in the end. They show a list of blocks that
**mirrors** the statements: an `if` for each conditional, with an `elif`
for every further one in its chain, a function for each function, with
the bindings of its parameters before its body, and a `case` for each
switch, all nested and in the order of the source.

There is one exception to the order, and it is deliberate: the arm of the
default comes last, since its pattern matches everything. How the arms of
a switch are arranged is therefore a parameter of `Mirrors`.

The blocks are read back from the lines alone (`Block.read?_layout`), so
what is known of them is known of the script, whoever reads it.
-/

namespace ScriptToShell

open Emit
open Text (joinWith)

/-! ## Lines that show a layout -/

namespace Shell

section Shows

variable {unit : Indent} {lines lines' : List String} {layout layout' : List (Nat × String)}

theorem placed_zero (unit : Indent) (text : String) : placed unit (0, text) = text := by
  cases unit <;> simp [placed, indentation]

theorem shows_nil : Shows unit [] [] := rfl

theorem shows_blank : Shows unit [""] [] := rfl

theorem Shows.append (h : Shows unit lines layout) (h' : Shows unit lines' layout') :
    Shows unit (lines ++ lines') (layout ++ layout') := by
  unfold Shows at *
  rw [List.filter_append, h, h', List.map_append]

theorem Shows.cons {text : String} (hne : text ≠ "") (h : Shows unit lines layout) :
    Shows unit (text :: lines) ((0, text) :: layout) := by
  unfold Shows at *
  rw [List.filter_cons, if_pos (decide_eq_true hne), h, List.map_cons, placed_zero]

theorem shows_simple {texts : List String} (h : ∀ t ∈ texts, t ≠ "") :
    Shows unit texts (Block.layoutAll (texts.map .simple)) := by
  induction texts with
  | nil => exact shows_nil
  | cons t texts ih =>
    rw [List.forall_mem_cons] at h
    exact (ih h.2).cons h.1

theorem Shows.framed (outermost : Bool) (h : Shows unit lines layout) :
    Shows unit (Emit.framed outermost lines) layout := by
  cases outermost with
  | false => exact h
  | true =>
    have hframed := (shows_blank.append h).append shows_blank
    rwa [List.append_nil] at hframed

/-- **Moving lines to the right** puts what they show one level deeper. -/
theorem Shows.indent (h : Shows unit lines layout) :
    Shows unit (indentLines unit lines) (deeper layout) := by
  have hempty : ∀ line ∈ lines, decide (indentLine unit line ≠ "") = decide (line ≠ "") := by
    intro line _
    by_cases hline : line = ""
    · rw [hline]
      rfl
    · simp [indentLine, hline]
  unfold Shows at *
  unfold indentLines deeper
  rw [List.filter_map, List.map_map]
  show (lines.filter fun line => decide (indentLine unit line ≠ "")).map (indentLine unit) = _
  rw [List.filter_congr hempty]
  calc (lines.filter (· ≠ "")).map (indentLine unit)
      = (lines.filter (· ≠ "")).map (indentation unit 1 ++ ·) :=
        List.map_congr_left fun line hline => if_neg (of_decide_eq_true (List.mem_filter.1 hline).2)
    _ = layout.map fun line => indentation unit 1 ++ placed unit line := by
        rw [h, List.map_map]
        rfl
    _ = layout.map fun line => placed unit (line.1 + 1, line.2) :=
        List.map_congr_left fun line _ => by
          unfold placed
          rw [indentation_succ unit line.1, String.append_assoc]

/-- Cutting off blank lines does not change what lines show, as long as
only empty lines are blank. -/
theorem filter_dropWhile_isBlankLine (h : ∀ line ∈ lines, isBlankLine line = true → line = "") :
    (lines.dropWhile isBlankLine).filter (· ≠ "") = lines.filter (· ≠ "") := by
  induction lines with
  | nil => rfl
  | cons line lines ih =>
    rw [List.forall_mem_cons] at h
    by_cases hblank : isBlankLine line = true
    · rw [List.dropWhile_cons_of_pos hblank, ih h.2, h.1 hblank]
      rfl
    · rw [List.dropWhile_cons_of_neg hblank]

theorem filter_trimBlank (h : ∀ line ∈ lines, isBlankLine line = true → line = "") :
    (trimBlank lines).filter (· ≠ "") = lines.filter (· ≠ "") := by
  have hreverse : ∀ line ∈ lines.reverse, isBlankLine line = true → line = "" :=
    fun line hline => h line (List.mem_reverse.1 hline)
  have hend : ∀ line ∈ (lines.reverse.dropWhile isBlankLine).reverse,
      isBlankLine line = true → line = "" := fun line hline =>
    hreverse line ((List.dropWhile_sublist _).subset (List.mem_reverse.1 hline))
  unfold trimBlank
  rw [filter_dropWhile_isBlankLine hend, List.filter_reverse, filter_dropWhile_isBlankLine hreverse,
    ← List.filter_reverse, List.reverse_reverse]

theorem trimBlank_of_forall (h : ∀ line ∈ lines, isBlankLine line = true) :
    trimBlank lines = [] := by
  unfold trimBlank
  rw [← List.append_nil lines.reverse, List.dropWhile_append_of_pos fun line hline =>
    h line (List.mem_reverse.1 hline)]
  rfl

end Shows

/-- **The blocks of a body**: a body without any has the command that does
nothing. -/
def filled : List Block → List Block
  | [] => [.simple ":"]
  | bs => bs

section Bodies

variable {ok : String → Prop} {unit : Indent} {lines : List String} {bs : List Block}

theorem layoutAll_singleton (b : Block) : Block.layoutAll [b] = b.layout := List.append_nil _

theorem layout_ne_nil (b : Block) : b.layout ≠ [] := by
  cases b <;> simp [Block.layout]

theorem layoutAll_ne_nil (h : bs ≠ []) : Block.layoutAll bs ≠ [] := by
  cases bs with
  | nil => exact absurd rfl h
  | cons b bs => exact fun hnil => layout_ne_nil b (List.append_eq_nil_iff.1 hnil).1

theorem isCommandLine_filler : IsCommandLine ok ":" :=
  ⟨neat_of_all ":" (by decide) (by decide), ":", .inr (by decide), beginsWith_self ":"⟩

theorem legibleAll_filled (h : Block.LegibleAll ok bs) : Block.LegibleAll ok (filled bs) := by
  cases bs with
  | nil => exact ⟨isCommandLine_filler, trivial⟩
  | cons b bs => exact h

/-- A line with a text on it is not blank, however far it is indented. -/
theorem isBlankLine_placed {line : Nat × String} (h : IsLine line.2) :
    isBlankLine (placed unit line) = false := by
  unfold isBlankLine placed
  rw [String.toList_append]
  exact (h.neat.solid.append_left _).allBlank_eq_false

/-- **The body of a compound command** shows its blocks one level deeper,
with the filler if there are none. -/
theorem Shows.body (hok : ∀ name, ok name → isName name = true)
    (h : Shows unit lines (Block.layoutAll bs)) (hlegible : Block.LegibleAll ok bs) :
    Shows unit (Emit.body unit lines) (deeper (Block.layoutAll (filled bs))) := by
  have hlines := Block.isLine_of_mem_layoutAll hok bs hlegible
  have hblank : ∀ line ∈ lines, isBlankLine line = true → line = "" := by
    intro line hline hblank
    by_cases hne : line = ""
    · exact hne
    · have hfilter : line ∈ lines.filter (· ≠ "") := List.mem_filter.2 ⟨hline, decide_eq_true hne⟩
      rw [h] at hfilter
      obtain ⟨l, hl, rfl⟩ := List.mem_map.1 hfilter
      rw [isBlankLine_placed (hlines l hl)] at hblank
      cases hblank
  unfold Emit.body
  cases bs with
  | nil =>
    have hempty : ∀ line ∈ lines, isBlankLine line = true := by
      intro line hline
      have hnone := List.filter_eq_nil_iff.1 h line hline
      rw [decide_eq_true_eq, ne_eq, Decidable.not_not] at hnone
      rw [hnone]
      rfl
    rw [trimBlank_of_forall hempty]
    have hfiller : Shows unit [":"] (Block.layoutAll [.simple ":"]) :=
      shows_simple (List.forall_mem_singleton.2 (by decide))
    exact hfiller.indent
  | cons b bs =>
    have htrim : Shows unit (trimBlank lines) (Block.layoutAll (b :: bs)) := by
      unfold Shows
      rw [filter_trimBlank hblank]
      exact h
    split
    · rename_i hnil
      rw [hnil] at htrim
      exact absurd (List.map_eq_nil_iff.1 htrim.symm) (layoutAll_ne_nil (List.cons_ne_nil b bs))
    · exact htrim.indent

end Bodies

end Shell

/-! ## Mirroring -/

open Shell

/-- The statements of a case, without a `break` at their end. -/
def withoutExit : List Stmt → List Stmt
  | [] => []
  | [.exit _] => []
  | s :: ss => s :: withoutExit ss

section Mirrors

variable (arranged : List (Bool × Arm) → List Arm → Prop) (target : Target)

mutual

/-- **Blocks that mirror a statement.** The arms of a switch are told apart
by whether the default is among their labels, and arranged in a given
way. -/
inductive Mirrors : Stmt → List Block → Prop
  | block {body span bs} (h : MirrorsAll body bs) : Mirrors (.block body span) bs
  | empty {span} : Mirrors (.empty span) []
  | expression {value span} (lines : List String) (h : lines ≠ []) :
      Mirrors (.expression value span) (lines.map .simple)
  | ret {argument span} (lines : List String) (h : lines ≠ []) :
      Mirrors (.ret argument span) (lines.map .simple)
  | declaration {kind declarators span} (lines : List String)
      (h : lines.length = declarators.length) :
      Mirrors (.declaration kind declarators span) (lines.map .simple)
  | branch {test consequent alternate span t bs rest} (ht : test.condition target = .ok t)
      (hbody : Mirrors consequent bs) (hrest : MirrorsRest alternate rest) :
      Mirrors (.branch test consequent alternate span) [.conditional t (filled bs) rest]
  | function {name params body span bs} (h : MirrorsAll body bs) :
      Mirrors (.function name params body span)
        [.function name (filled ((parameterLines params).map .simple ++ bs))]
  | switch {discriminant cases span word own arms} (hword : discriminant.value target = .ok word)
      (hcases : MirrorsCases [] false cases own) (harms : arranged own arms) :
      Mirrors (.switch discriminant cases span) [.choice word arms]

/-- Blocks that mirror a list of statements, in its order. -/
inductive MirrorsAll : List Stmt → List Block → Prop
  | nil : MirrorsAll [] []
  | cons {s ss bs bs'} (h : Mirrors s bs) (hs : MirrorsAll ss bs') :
      MirrorsAll (s :: ss) (bs ++ bs')

/-- What mirrors an alternate: a branch of the same conditional if it is a
conditional itself, and the last branch otherwise. -/
inductive MirrorsRest : Option Stmt → Alternative → Prop
  | none : MirrorsRest none .none
  | elif {test consequent alternate span t bs rest} (ht : test.condition target = .ok t)
      (hbody : Mirrors consequent bs) (hrest : MirrorsRest alternate rest) :
      MirrorsRest (some (.branch test consequent alternate span)) (.elif t (filled bs) rest)
  | otherwise {s bs} (hs : ∀ test consequent alternate span,
      s ≠ .branch test consequent alternate span) (h : Mirrors s bs) :
      MirrorsRest (some s) (.otherwise (filled bs))

/-- The arms that mirror cases, each with whether the default is among its
labels. Labels that wait for an arm are given, and whether the default is
among them. -/
inductive MirrorsCases : List String → Bool → List SwitchCase → List (Bool × Arm) → Prop
  | nil {labels hasDefault} : MirrorsCases labels hasDefault [] []
  | shared {labels hasDefault test span rest label own} (hrest : rest ≠ [])
      (hlabel : caseLabel target test = .ok label)
      (h : MirrorsCases (labels ++ [label]) (hasDefault || test.isNone) rest own) :
      MirrorsCases labels hasDefault (.mk test [] span :: rest) own
  | arm {labels hasDefault test consequent span rest label bs own}
      (hends : consequent ≠ [] ∨ rest = []) (hlabel : caseLabel target test = .ok label)
      (hbody : MirrorsAll (withoutExit consequent) bs) (h : MirrorsCases [] false rest own) :
      MirrorsCases labels hasDefault (.mk test consequent span :: rest)
        ((hasDefault || test.isNone, .mk (joinWith "|" (labels ++ [label])) bs) :: own)

end

end Mirrors

/-- Arms in the order of the source. -/
def InOrder (own : List (Bool × Arm)) (arms : List Arm) : Prop := arms = own.map (·.2)

/-- **Arms with the default last.** Nothing is said of a switch that has
more than one default. -/
def DefaultLast (own : List (Bool × Arm)) (arms : List Arm) : Prop :=
  (own.filter (·.1)).length ≤ 1 → arms = (own.filter (!·.1) ++ own.filter (·.1)).map (·.2)

/-- Labels with a bar between them are a label again. -/
theorem isLabel_joinWith {ok : String → Prop} (hok : ∀ name, ok name → isName name = true)
    {labels : List String} (hne : labels ≠ [])
    (h : ∀ label ∈ labels, label = "*" ∨ Phrase ok .value label) :
    IsLabel (joinWith "|" labels) := by
  have hlabel : ∀ label, label = "*" ∨ Phrase ok .value label → IsLabel label := by
    rintro label (rfl | hphrase)
    · exact ⟨neat_of_all "*" (by decide) (by decide), '*', by decide, by decide⟩
    · refine ⟨hphrase.neat hok, ?_⟩
      cases hphrase with
      | reference _ => exact ⟨'"', by decide, by simp⟩
      | quoted _ => exact ⟨'"', by decide, by simp⟩
      | scriptDir => exact ⟨'$', by decide, by decide⟩
      | scriptPath => exact ⟨'$', by decide, by decide⟩
      | arithmetic _ _ _ => exact ⟨'$', by decide, by simp⟩
      | boolean _ => exact ⟨'$', by decide, by simp [booleanWord]⟩
      | substitution _ => exact ⟨'$', by decide, by simp⟩
  induction labels with
  | nil => exact absurd rfl hne
  | cons label labels ih =>
    rw [List.forall_mem_cons] at h
    cases labels with
    | nil => exact hlabel label h.1
    | cons l ls =>
      have hfirst := hlabel label h.1
      have hrest := ih (List.cons_ne_nil l ls) h.2
      refine ⟨Neat.between hfirst.neat.settled (settled_of_all "|" (by decide)) hrest.neat, ?_⟩
      obtain ⟨c, hc, hhead⟩ := hfirst.begins
      refine ⟨c, hc, ?_⟩
      show (label ++ "|" ++ joinWith "|" (l :: ls)).toList.head? = some c
      rw [String.toList_append, String.toList_append, List.append_assoc, List.head?_append, hhead]
      rfl

/-! ## Statements -/

/-- **Lines that render blocks**: they show the blocks, and the blocks can
be read back. -/
structure Renders (ok : String → Prop) (unit : Indent) (lines : List String) (bs : List Block) :
    Prop where
  /-- The lines show the blocks. -/
  shows : Shows unit lines (Block.layoutAll bs)
  /-- The blocks are legible. -/
  legible : Block.LegibleAll ok bs

section Renders

variable {ok : String → Prop} {unit : Indent} {lines lines' : List String} {bs bs' : List Block}

theorem renders_nil : Renders ok unit [] [] := ⟨shows_nil, trivial⟩

theorem Renders.append (h : Renders ok unit lines bs) (h' : Renders ok unit lines' bs') :
    Renders ok unit (lines ++ lines') (bs ++ bs') where
  shows := by
    rw [Block.layoutAll_append]
    exact h.shows.append h'.shows
  legible := Block.legibleAll_append.2 ⟨h.legible, h'.legible⟩

theorem renders_simple (hok : ∀ name, ok name → isName name = true)
    (h : ∀ line ∈ lines, IsCommandLine ok line) : Renders ok unit lines (lines.map .simple) :=
  ⟨shows_simple fun line hline => ((h line hline).isLine hok).ne_empty, Block.legibleAll_simple h⟩

end Renders

theorem Shell.Arm.legibleAll_iff {ok : String → Prop} {arms : List Arm} :
    Arm.LegibleAll ok arms ↔ ∀ a ∈ arms, Arm.LegibleAll ok [a] := by
  induction arms with
  | nil => exact iff_of_true trivial (List.forall_mem_nil _)
  | cons a arms ih =>
    rw [← List.singleton_append, Arm.legibleAll_append, ih, List.forall_mem_append,
      List.forall_mem_singleton]

/-- A setting in which every module is empty. -/
def Setting.blank : Setting := { modules := fun _ => .ok "" }

namespace Stmt

open Emission

variable {w : Setting} {ok : String → Prop} {f : Bool} {n : Nesting}

/-- **A statement whose lines mirror it**, on its own and as an alternate,
wherever it stands. -/
def IsMirrored (w : Setting) (ok : String → Prop) (s : Stmt) : Prop :=
  ∀ (f : Bool) (n : Nesting), s.Plain ok f →
    (∀ lines, outcome (s.emit w) n = .ok lines →
      ∃ bs, Mirrors DefaultLast w.options.target s bs ∧ Renders ok w.options.indent lines bs)
    ∧ ∀ lines, outcome (emitAlternate w (some s)) n = .ok lines →
      ∃ rest, MirrorsRest DefaultLast w.options.target (some s) rest
        ∧ Shows w.options.indent lines rest.layout ∧ rest.Legible ok

/-- As an alternate, a statement other than an `if` is the last branch. -/
theorem isMirrored_of_ne_branch (hok : ∀ name, ok name → isName name = true) {s : Stmt}
    (hs : ∀ test consequent alternate span, s ≠ .branch test consequent alternate span)
    (h : ∀ (f : Bool) (n : Nesting), s.Plain ok f → ∀ lines, outcome (s.emit w) n = .ok lines →
      ∃ bs, Mirrors DefaultLast w.options.target s bs ∧ Renders ok w.options.indent lines bs) :
    IsMirrored w ok s := by
  refine fun f n hplain => ⟨h f n hplain, fun lines hlines => ?_⟩
  rw [outcome_emitAlternate_else w n hs] at hlines
  obtain ⟨body, hbody, rfl⟩ := map_eq_ok_iff.1 hlines
  obtain ⟨bs, hmirrors, hrenders⟩ := h f n hplain body hbody
  refine ⟨_, .otherwise hs hmirrors, ?_, legibleAll_filled hrenders.legible⟩
  exact (hrenders.shows.body hok hrenders.legible).cons (by decide)

/-- The lines of a statement before those of others. -/
theorem mirrors_cons {s : Stmt} {ss : List Stmt} (hs : IsMirrored w ok s) (hplain : s.Plain ok f)
    {tail : Except Fault (List String)}
    (htail : ∀ rest, tail = .ok rest → ∃ bs, MirrorsAll DefaultLast w.options.target ss bs
      ∧ Renders ok w.options.indent rest bs) {lines : List String}
    (hlines : (do
      let first ← outcome (s.emit w) n
      let rest ← tail
      return first ++ rest) = .ok lines) :
    ∃ bs, MirrorsAll DefaultLast w.options.target (s :: ss) bs
      ∧ Renders ok w.options.indent lines bs := by
  obtain ⟨first, rest, hfirst, hrest, rfl⟩ := bind₂_eq_ok_iff.1 hlines
  obtain ⟨bs, hmirrors, hrenders⟩ := (hs f n hplain).1 first hfirst
  obtain ⟨bs', hmirrors', hrenders'⟩ := htail rest hrest
  exact ⟨bs ++ bs', .cons hmirrors hmirrors', hrenders.append hrenders'⟩

theorem mirrors_emitAll {stmts : List Stmt} (h : ∀ s ∈ stmts, IsMirrored w ok s)
    (hplain : ∀ s ∈ stmts, s.Plain ok f) {lines : List String}
    (hlines : outcome (emitAll w stmts) n = .ok lines) :
    ∃ bs, MirrorsAll DefaultLast w.options.target stmts bs
      ∧ Renders ok w.options.indent lines bs := by
  induction stmts generalizing lines with
  | nil =>
    rw [outcome_emitAll_nil] at hlines
    cases hlines
    exact ⟨[], .nil, renders_nil⟩
  | cons s ss ih =>
    rw [List.forall_mem_cons] at h hplain
    rw [outcome_emitAll_cons] at hlines
    exact mirrors_cons h.1 hplain.1 (fun _ => ih h.2 hplain.2) hlines

/-- The value that a function returns last is printed, and that is all of
it. -/
theorem mirrors_emitFunction (hok : ∀ name, ok name → isName name = true) {stmts : List Stmt}
    (h : ∀ s ∈ stmts, IsMirrored w ok s) (hplain : ∀ s ∈ stmts, s.Plain ok f)
    {lines : List String} (hlines : outcome (emitFunction w stmts) n = .ok lines) :
    ∃ bs, MirrorsAll DefaultLast w.options.target stmts bs
      ∧ Renders ok w.options.indent lines bs := by
  induction stmts generalizing lines with
  | nil =>
    rw [outcome_emitFunction_nil] at hlines
    cases hlines
    exact ⟨[], .nil, renders_nil⟩
  | cons s ss ih =>
    rw [List.forall_mem_cons] at h hplain
    obtain ⟨value, span, rfl, rfl⟩ | hcons := lastReturn_or s ss
    · rw [outcome_emitFunction_ret] at hlines
      obtain ⟨line, hline, rfl⟩ := map_eq_ok_iff.1 hlines
      have hnamed := (List.forall_mem_cons.1 hplain.1.2).2
      rw [parts] at hnamed
      refine ⟨_, .cons (.ret [line] (List.cons_ne_nil line [])) .nil, ?_⟩
      rw [List.append_nil]
      exact renders_simple hok (List.forall_mem_singleton.2 (isCommandLine_echo hok hnamed hline))
    · rw [outcome_emitFunction_cons w n hcons] at hlines
      exact mirrors_cons h.1 hplain.1 (fun _ => ih h.2 hplain.2) hlines

theorem mirrors_emitCase {stmts : List Stmt} (h : ∀ s ∈ stmts, IsMirrored w ok s)
    (hplain : ∀ s ∈ stmts, s.Plain ok f) {lines : List String}
    (hlines : outcome (emitCase w stmts) n = .ok lines) :
    ∃ bs, MirrorsAll DefaultLast w.options.target (withoutExit stmts) bs
      ∧ Renders ok w.options.indent lines bs := by
  induction stmts generalizing lines with
  | nil =>
    rw [outcome_emitCase_nil] at hlines
    cases hlines
    exact ⟨[], .nil, renders_nil⟩
  | cons s ss ih =>
    rw [List.forall_mem_cons] at h hplain
    obtain ⟨span, rfl, rfl⟩ | hcons := lastExit_or s ss
    · rw [outcome_emitCase_exit] at hlines
      cases hlines
      exact ⟨[], .nil, renders_nil⟩
    · rw [outcome_emitCase_cons w n hcons] at hlines
      rw [withoutExit.eq_3 s ss hcons]
      exact mirrors_cons h.1 hplain.1 (fun _ => ih h.2 hplain.2) hlines

/-- The arms that a `case` has in the end: those without the default, and
the last one with it. -/
def chosenArms (own : List (Bool × Arm)) : List Arm :=
  (own.filter (!·.1) ++ (own.filter (·.1)).getLast?.toList).map (·.2)

theorem defaultLast_chosenArms (own : List (Bool × Arm)) : DefaultLast own (chosenArms own) := by
  intro hone
  have hlast : (own.filter (·.1)).getLast?.toList = own.filter (·.1) := by
    rcases hlist : own.filter (·.1) with _ | ⟨a, _ | ⟨b, rest⟩⟩
    · rw [hlist]
      rfl
    · rw [hlist]
      rfl
    · rw [hlist] at hone
      exact absurd hone (by simp)
  unfold chosenArms
  rw [hlast]

theorem legibleAll_chosenArms {own : List (Bool × Arm)}
    (h : Arm.LegibleAll ok (own.map (·.2))) : Arm.LegibleAll ok (chosenArms own) := by
  rw [Arm.legibleAll_iff] at h ⊢
  rw [List.forall_mem_map] at h
  unfold chosenArms
  rw [List.forall_mem_map, List.forall_mem_append]
  refine ⟨fun a ha => h a (List.mem_filter.1 ha).1, fun a ha => ?_⟩
  exact h a (List.mem_filter.1 (List.mem_of_getLast? (Option.mem_toList.1 ha))).1

/-- **An arm** shows its label, its blocks one level deeper, and its end. -/
theorem shows_arm {unit : Indent} {labels lines : List String} {bs : List Block}
    (hlabel : IsLabel (joinWith "|" labels)) (h : Renders ok unit lines bs) :
    Shows unit (arm unit labels lines) (deeper (Arm.layoutAll [.mk (joinWith "|" labels) bs])) := by
  have hend : Shows unit [";;"] [(0, ";;")] := shows_nil.cons (by decide)
  exact ((h.shows.indent.append hend).cons hlabel.isLine.ne_empty).indent

/-- **The arms of a `switch`.** The labels that wait for an arm are labels,
and an arm with the default is kept back until the end. -/
theorem mirrors_emitCases (hok : ∀ name, ok name → isName name = true) {cases : List SwitchCase}
    (h : ∀ c ∈ cases, ∀ s ∈ c.consequent, IsMirrored w ok s)
    (hplain : ∀ c ∈ cases, (∀ x ∈ Expr.positions? c.test, x.Named ok)
      ∧ ∀ s ∈ c.consequent, s.Plain ok f)
    {labels : List String} (hlabels : ∀ label ∈ labels, label = "*" ∨ Phrase ok .value label)
    {hasDefault : Bool} {arms : List String} {default : Option (List String)}
    (hlines : outcome (SwitchCase.emitAll w labels hasDefault cases) n = .ok (arms, default)) :
    ∃ own, MirrorsCases DefaultLast w.options.target labels hasDefault cases own
      ∧ Arm.LegibleAll ok (own.map (·.2))
      ∧ Shows w.options.indent arms (deeper (Arm.layoutAll ((own.filter (!·.1)).map (·.2))))
      ∧ (default = none ↔ own.filter (·.1) = [])
      ∧ Shows w.options.indent (default.getD [])
        (deeper (Arm.layoutAll ((own.filter (·.1)).getLast?.toList.map (·.2)))) := by
  induction cases generalizing labels hasDefault arms default with
  | nil =>
    rw [SwitchCase.outcome_emitAll_nil] at hlines
    cases hlines
    exact ⟨[], .nil, trivial, shows_nil, iff_of_true rfl rfl, shows_nil⟩
  | cons c rest ih =>
    obtain ⟨test, consequent, span⟩ := c
    rw [List.forall_mem_cons] at h hplain
    rw [SwitchCase.outcome_emitAll_cons] at hlines
    obtain ⟨label, hlabel, hrest⟩ := bind_eq_ok_iff.1 hlines
    clear hlines
    have hlabels' : ∀ l ∈ labels ++ [label], l = "*" ∨ Phrase ok .value l :=
      List.forall_mem_append.2
        ⟨hlabels, List.forall_mem_singleton.2 (caseLabel_cases hplain.1.1 hlabel)⟩
    split at hrest
    · -- the case shares the arm of the next one
      rename_i hshared
      obtain ⟨own, hmirrors, hown⟩ := ih h.2 hplain.2 hlabels' hrest
      obtain ⟨rfl, hne⟩ : consequent = [] ∧ rest ≠ [] := by simpa using hshared
      exact ⟨own, .shared hne hlabel hmirrors, hown⟩
    · rename_i hown
      have hends : consequent ≠ [] ∨ rest = [] := by
        by_cases hnil : consequent = []
        · right
          simpa [hnil] using hown
        · exact .inl hnil
      split at hrest
      · cases hrest
      · obtain ⟨lines, hbody, hrest⟩ := bind_eq_ok_iff.1 hrest
        obtain ⟨⟨arms', default'⟩, harms, hpure⟩ := bind_eq_ok_iff.1 hrest
        obtain ⟨bs, hmirrors, hrenders⟩ := mirrors_emitCase h.1 hplain.1.2 hbody
        obtain ⟨own, hcases, hlegible, hshows, hnone, hlast⟩ :=
          ih h.2 hplain.2 (List.forall_mem_nil _) harms
        have hjoined := isLabel_joinWith hok (by simp) hlabels'
        have harm := shows_arm hjoined hrenders
        refine ⟨_, .arm hends hlabel hmirrors hcases, ⟨hjoined, hrenders.legible, hlegible⟩, ?_⟩
        cases hflag : hasDefault || test.isNone with
        | true =>
          -- an arm with the default, which a later one would replace
          rw [hflag] at hpure
          cases hpure
          refine ⟨hshows, iff_of_false (by cases default' <;> simp) (by simp), ?_⟩
          rw [List.filter_cons_of_pos rfl, List.getLast?_cons]
          cases default' with
          | none =>
            rw [hnone.1 rfl]
            exact harm
          | some lines' =>
            have hne : own.filter (·.1) ≠ [] := fun hnil => nomatch hnone.2 hnil
            rw [List.getLast?_eq_some_getLast hne] at hlast ⊢
            exact hlast
        | false =>
          rw [hflag] at hpure
          cases hpure
          refine ⟨?_, hnone, hlast⟩
          have happend := harm.append hshows
          rwa [← deeper_append, ← Arm.layoutAll_append] at happend

/-- **Every plain statement is mirrored by its lines.** -/
theorem isMirrored (hok : ∀ name, ok name → isName name = true) (w : Setting) (s : Stmt) :
    IsMirrored w ok s := by
  induction s using Stmt.induction_on with
  | block body span ih =>
    refine isMirrored_of_ne_branch hok (by simp) fun f n hplain lines hlines => ?_
    rw [outcome_block] at hlines
    obtain ⟨bs, hmirrors, hrenders⟩ := mirrors_emitAll ih hplain.block hlines
    exact ⟨bs, .block hmirrors, hrenders⟩
  | empty span =>
    refine isMirrored_of_ne_branch hok (by simp) fun f n _ lines hlines => ?_
    rw [outcome_empty] at hlines
    cases hlines
    exact ⟨[], .empty, renders_nil⟩
  | expression value span =>
    refine isMirrored_of_ne_branch hok (by simp) fun f n hplain lines hlines => ?_
    have hnamed := (List.forall_mem_cons.1 hplain.2).2
    rw [parts] at hnamed
    rw [outcome_expression] at hlines
    cases value with
    | call callee arguments s =>
      obtain ⟨text, htext, rfl⟩ := map_eq_ok_iff.1 hlines
      have hphrase := (Expr.transcribes_call hnamed htext).phrase
      refine ⟨_, .expression _ ?_, renders_simple hok (isCommandLine_of_mem_splitText hok hphrase)⟩
      rw [splitText_of_neat (hphrase.neat hok)]
      exact mt List.map_eq_nil_iff.1 (Text.pieces_ne_nil _)
    | unsupported kind s => cases hlines
    | _ => cases hlines
  | branch test consequent alternate span ihc iha =>
    -- the rest of the chain is the same whether the branch opens it or not
    have hrest : ∀ (f : Bool) (n : Nesting), (∀ s ∈ alternate, s.Plain ok f) →
        ∀ lines, outcome (emitAlternate w alternate) n = .ok lines →
        ∃ rest, MirrorsRest DefaultLast w.options.target alternate rest
          ∧ Shows w.options.indent lines rest.layout ∧ rest.Legible ok := by
      intro f n hplain lines hlines
      cases alternate with
      | none =>
        rw [outcome_emitAlternate_none] at hlines
        cases hlines
        exact ⟨.none, .none, shows_nil, trivial⟩
      | some s => exact (iha s rfl f n (hplain s rfl)).2 lines hlines
    refine fun f n hplain => ?_
    obtain ⟨htest, hconsequent, halternate⟩ := hplain.branch
    refine ⟨fun lines hlines => ?_, fun lines hlines => ?_⟩
    · rw [outcome_branch] at hlines
      obtain ⟨t, body, others, ht, hbody, hothers, rfl⟩ := bind₃_eq_ok_iff.1 hlines
      obtain ⟨bs, hmirrors, hrenders⟩ := (ihc f n.inIf hconsequent).1 body hbody
      obtain ⟨rest, hmirrors', hshows, hlegible⟩ := hrest f n.inIf halternate others hothers
      have hneat := (Expr.phrase_condition htest ht).neat hok
      refine ⟨_, .branch ht hmirrors hmirrors', ?_, ⟨hneat, ?_, hlegible⟩, trivial⟩
      · have hend : Shows w.options.indent ["fi"] [(0, "fi")] := shows_nil.cons (by decide)
        rw [layoutAll_singleton]
        refine Shows.framed _ (Shows.append (Shows.append (Shows.cons (by simp) ?_) hshows) hend)
        exact hrenders.shows.body hok hrenders.legible
      · exact legibleAll_filled hrenders.legible
    · rw [outcome_emitAlternate_branch] at hlines
      obtain ⟨t, body, others, ht, hbody, hothers, rfl⟩ := bind₃_eq_ok_iff.1 hlines
      obtain ⟨bs, hmirrors, hrenders⟩ := (ihc f n hconsequent).1 body hbody
      obtain ⟨rest, hmirrors', hshows, hlegible⟩ := hrest f n halternate others hothers
      have hneat := (Expr.phrase_condition htest ht).neat hok
      refine ⟨_, .elif ht hmirrors hmirrors', ?_, hneat, ?_, hlegible⟩
      · exact ((hrenders.shows.body hok hrenders.legible).cons (by simp)).append hshows
      · exact legibleAll_filled hrenders.legible
  | function name params body span ih =>
    refine isMirrored_of_ne_branch hok (by simp) fun f n hplain lines hlines => ?_
    obtain ⟨hname, hparams, hbody⟩ := hplain.function
    rw [outcome_function] at hlines
    obtain ⟨locals, rest, hlocals, hrest, rfl⟩ := bind₂_eq_ok_iff.1 hlines
    obtain ⟨bs, hmirrors, hrenders⟩ := mirrors_emitFunction hok ih hbody hrest
    obtain rfl : locals = parameterLines params := bindings_eq hlocals
    have hall := (renders_simple hok (isCommandLine_parameter hok hparams)).append hrenders
    refine ⟨_, .function hmirrors, ?_, ⟨hname, legibleAll_filled hall.legible⟩, trivial⟩
    have hend : Shows w.options.indent ["\x7d", ""] [(0, "\x7d")] := shows_blank.cons (by decide)
    rw [layoutAll_singleton]
    exact ((hall.shows.body hok hall.legible).cons (by simp)).append hend
  | ret argument span =>
    refine isMirrored_of_ne_branch hok (by simp) fun f n hplain lines hlines => ?_
    have hnamed := (List.forall_mem_cons.1 hplain.2).2
    rw [parts] at hnamed
    rw [outcome_ret] at hlines
    split at hlines
    · cases hlines
    · cases argument with
      | none =>
        cases hlines
        refine ⟨_, .ret ["return"] (List.cons_ne_nil _ _), renders_simple hok ?_⟩
        exact List.forall_mem_singleton.2 isCommandLine_return
      | some value =>
        obtain ⟨line, hline, rfl⟩ := map_eq_ok_iff.1 hlines
        refine ⟨_, .ret [line, "return"] (List.cons_ne_nil _ _), renders_simple hok ?_⟩
        rw [List.forall_mem_cons, List.forall_mem_singleton]
        exact ⟨isCommandLine_echo hok hnamed hline, isCommandLine_return⟩
  | declaration kind declarators span =>
    refine isMirrored_of_ne_branch hok (by simp) fun f n hplain lines hlines => ?_
    have hnamed := (List.forall_mem_cons.1 hplain.2).2
    rw [parts, List.forall_mem_flatMap] at hnamed
    rw [outcome_declaration] at hlines
    refine ⟨_, .declaration lines (length_of_mapM_eq_ok hlines), renders_simple hok ?_⟩
    exact forall_of_mapM_eq_ok hlines fun d hd line hline =>
      isCommandLine_declarator hok (hnamed d hd) hline
  | switch discriminant cases span ih =>
    refine isMirrored_of_ne_branch hok (by simp) fun f n hplain lines hlines => ?_
    obtain ⟨hdiscriminant, hcases⟩ := hplain.switch
    rw [outcome_switch] at hlines
    obtain ⟨word, hword, hbind⟩ := bind_eq_ok_iff.1 hlines
    obtain ⟨⟨arms, default⟩, harms, hpure⟩ := bind_eq_ok_iff.1 hbind
    cases hpure
    obtain ⟨own, hmirrors, hlegible, hshows, -, hlast⟩ :=
      mirrors_emitCases hok ih hcases (List.forall_mem_nil _) harms
    have hneat := (Expr.phrase_value hdiscriminant hword).neat hok
    refine ⟨_, .switch hword hmirrors (defaultLast_chosenArms own), ?_,
      ⟨hneat, legibleAll_chosenArms hlegible⟩, trivial⟩
    have hend : Shows w.options.indent ["esac"] [(0, "esac")] := shows_nil.cons (by decide)
    have hchosen := hshows.append hlast
    rw [← deeper_append, ← Arm.layoutAll_append, ← List.map_append] at hchosen
    rw [layoutAll_singleton]
    exact (hchosen.cons (by simp)).append hend
  | importModule source span =>
    refine isMirrored_of_ne_branch hok (by simp) fun f n hplain => ?_
    have himports := hplain.1
    rw [imports] at himports
    cases himports
  | exit span =>
    refine isMirrored_of_ne_branch hok (by simp) fun f n _ lines hlines => ?_
    rw [outcome_exit] at hlines
    cases hlines
  | unsupported kind span =>
    refine isMirrored_of_ne_branch hok (by simp) fun f n _ lines hlines => ?_
    rw [outcome_unsupported] at hlines
    cases hlines

/-- **The lines determine the blocks.** Every line can be read, what is read
mirrors the statements, with the default last in each switch, and apart
from empty lines each line is indented by its depth. -/
theorem lines_mirror_statements (w : Setting) (n : Nesting) (stmts : List Stmt)
    (lines : List String) (himports : importsAll stmts = [])
    (hnames : ∀ name ∈ namesAll stmts, isName name = true ∧ name ∉ blockWords)
    (hlines : outcome (emitAll w stmts) n = .ok lines) :
    ∃ bs, Block.read? lines = some bs
      ∧ MirrorsAll DefaultLast w.options.target stmts bs
      ∧ Shows w.options.indent lines (Block.layoutAll bs) := by
  have hok : ∀ name, isName name = true ∧ name ∉ blockWords → isName name = true :=
    fun name hname => hname.1
  have hplain := plain_all.2 ⟨himports, forall_namesAll.1 hnames⟩
  obtain ⟨bs, hmirrors, hrenders⟩ :=
    mirrors_emitAll (fun s _ => isMirrored hok w s) hplain hlines
  have hread := Block.read?_layout (fun _ hname => hname) hrenders.shows hrenders.legible
  exact ⟨bs, hread, hmirrors, hrenders.shows⟩

/-- A function with a chain of conditionals. The first branch is empty, the
second one has a switch whose default comes first, and the literals look
like keywords. -/
def chainOfBlocks : List Stmt :=
  let name (text : String) : Expr := .identifier text .nowhere
  let string (text : String) : Expr := .literal (.string text) .nowhere
  let print (values : List Expr) : Stmt :=
    .expression (.call (.member (name "console") "log" .nowhere) values .nowhere) .nowhere
  let cases : List SwitchCase :=
    [.mk none [print [string "fi", string "esac"], .exit .nowhere] .nowhere,
      .mk (some (string "else")) [] .nowhere,
      .mk (some (string "x)")) [.ret (some (name "b")) .nowhere] .nowhere]
  let last : Stmt :=
    .declaration .const [⟨.identifier "c" .nowhere, some (string "if x; then"), .nowhere⟩] .nowhere
  [.function "pick" [.identifier "a" .nowhere, .identifier "b" .nowhere]
    [.branch (name "a") (.block [] .nowhere)
      (some (.branch (.call (name "check") [name "b"] .nowhere)
        (.switch (name "a") cases .nowhere) (some last) .nowhere)) .nowhere] .nowhere]

theorem chainOfBlocks_mirrored :
    importsAll chainOfBlocks = []
      ∧ (∀ name ∈ namesAll chainOfBlocks, isName name = true ∧ name ∉ blockWords)
      ∧ ∃ lines bs, outcome (emitAll .blank chainOfBlocks) {} = .ok lines
        ∧ Block.read? lines = some bs
        ∧ MirrorsAll DefaultLast .bash chainOfBlocks bs
        ∧ Shows (.spaces 2) lines (Block.layoutAll bs) := by
  have himports : importsAll chainOfBlocks = [] := rfl
  have hnames : ∀ name ∈ namesAll chainOfBlocks, isName name = true ∧ name ∉ blockWords := by
    decide +kernel
  obtain ⟨lines, hlines⟩ : ∃ lines, outcome (emitAll .blank chainOfBlocks) {} = .ok lines :=
    ⟨_, rfl⟩
  obtain ⟨bs, hbs⟩ :=
    lines_mirror_statements .blank {} chainOfBlocks lines himports hnames hlines
  exact ⟨himports, hnames, lines, bs, hlines, hbs⟩

/-- A switch with a function in each of two cases. The first case is the
default, and the second one may be a default, too. -/
def functionsSwitch (second : Option Expr) : List Stmt :=
  [.switch (.identifier "x" .nowhere)
    [.mk none [.function "f" [] [] .nowhere, .exit .nowhere] .nowhere,
      .mk second [.function "g" [] [] .nowhere] .nowhere] .nowhere]

/-- In the order of the source, the arm of the default is the first of
two. -/
theorem mirrorsAll_functionsSwitch {target : Target} {second : Option Expr} {bs : List Block}
    (h : MirrorsAll InOrder target (functionsSwitch second) bs) :
    ∃ word body arm, bs = [.choice word [.mk "*" body, arm]] := by
  cases h with
  | cons hs hnil =>
    cases hnil
    cases hs with
    | switch hword hcases harms =>
      cases hcases with
      | arm _ hlabel _ hrest =>
        cases hlabel
        cases hrest with
        | arm _ _ _ hrest =>
          cases hrest
          cases harms
          exact ⟨_, _, _, rfl⟩

/-- **Statements whose blocks are not in their order**, although nothing is
imported in them and their names are fit. -/
def OutOfOrder (stmts : List Stmt) : Prop :=
  importsAll stmts = []
    ∧ (∀ name ∈ namesAll stmts, isName name = true ∧ name ∉ blockWords)
    ∧ ∃ lines, outcome (emitAll .blank stmts) {} = .ok lines
      ∧ ¬ ∃ bs, Block.read? lines = some bs ∧ MirrorsAll InOrder .bash stmts bs

/-- **The arms of a switch do not keep the order of the source**: a default
moves behind the other arms, and a second default takes its place. -/
theorem functionsSwitch_out_of_order :
    OutOfOrder (functionsSwitch (some (.literal (.number "1") .nowhere)))
      ∧ OutOfOrder (functionsSwitch none) := by
  refine ⟨⟨rfl, by decide, _, rfl, ?_⟩, ⟨rfl, by decide, _, rfl, ?_⟩⟩
  · rintro ⟨bs, hread, hmirrors⟩
    obtain ⟨word, body, arm, rfl⟩ := mirrorsAll_functionsSwitch hmirrors
    have hback : some [Block.choice "\"$x\"" [.mk "\"1\"" [.function "g" [.simple ":"]],
        .mk "*" [.function "f" [.simple ":"]]]] = some [.choice word [.mk "*" body, arm]] := hread
    simp at hback
  · rintro ⟨bs, hread, hmirrors⟩
    obtain ⟨word, body, arm, rfl⟩ := mirrorsAll_functionsSwitch hmirrors
    have hback : some [Block.choice "\"$x\"" [.mk "*" [.function "g" [.simple ":"]]]]
        = some [.choice word [.mk "*" body, arm]] := hread
    simp at hback

end Stmt

end ScriptToShell
