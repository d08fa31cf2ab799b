import ScriptToShell.Proofs.ReadStatement

/-!
# The spans of a program

A diagnostic points at a span, so every span of a program has to be one of its
text. This module says so for whatever a text is read as: each node of the
program, at any depth, starts and ends between two characters of the text, the
nodes below it stand inside it, and they stand one behind the other
(`Program.spans_nest`). It is a reading of the grammar in tandem with itself,
with nothing before the text.

What it takes for a text to be a program is stated once
(`Program.parse_eq_ok_iff`).
-/

namespace ScriptToShell.Grammar

open Scan

/-! ## Statements of a program -/

theorem markedStatement_end (n pos : Nat) : markedStatement (readers n) ⟨pos, []⟩ = none := by
  have hmarks : Reader.marks ⟨pos, []⟩ = some ([], ⟨pos, []⟩) := rfl
  have hstatement : (readers n).statement ⟨pos, []⟩ = none := by
    cases n with
    | zero => rfl
    | succ n => exact statementRule_end _ _ (readers_expression_end n true 0 _)
  simp [markedStatement, hmarks, hstatement]

theorem programBody_of_line {R : Readers} {c c' : Cursor} {marks : List Span}
    (h : interpreterLine c = some (marks, c')) :
    programBody R c = (statements R c').map fun x => (marks.map markStatement ++ x.1, x.2) := by
  unfold programBody
  cases hbody : statements R c' <;> simp [h, hbody]

theorem programBody_of_no_line {R : Readers} {c : Cursor} (h : interpreterLine c = none) :
    programBody R c = (statements R c).map fun x => (x.1.dropWhile isDirective, x.2) := by
  unfold programBody
  cases hbody : statements R c <;> simp [h, hbody]

end ScriptToShell.Grammar

namespace ScriptToShell

open Scan Grammar

/-- **What it takes to read a program**: there is no null character, and its
statements are read up to the end of the text. -/
theorem Program.parse_eq_ok_iff {text : String} {p : Program} :
    Program.parse text = .ok p ↔ '\x00' ∉ text.toList ∧ ∃ body stop,
      programBody (readers (text.toList.length + 1)) (.at text.toList 0) = some (body, stop)
      ∧ stop.rest = [] ∧ p = ⟨body, offsetAt text.toList (spaces text.toList), stop.pos⟩ := by
  have hstart : Cursor.ofText text.toList = .at text.toList 0 := rfl
  have hrest : (Cursor.at text.toList 0).rest = text.toList := rfl
  by_cases hnull : '\x00' ∈ text.toList
  · simp [Program.parse, hnull]
  simp only [Program.parse, hstart, hrest, Cursor.skip_at, Nat.zero_add, hnull, ↓reduceIte,
    not_false_eq_true, true_and]
  cases programBody (readers (text.toList.length + 1)) (.at text.toList 0) with
  | none => simp
  | some found =>
    obtain ⟨body, stop⟩ := found
    by_cases hend : stop.rest = []
    · simp only [hend, List.isEmpty_nil, ↓reduceIte, Except.ok.injEq, Option.some.injEq,
        Prod.mk.injEq]
      constructor
      · rintro rfl
        exact ⟨body, stop, ⟨rfl, rfl⟩, hend, rfl⟩
      · rintro ⟨_, _, ⟨rfl, rfl⟩, -, rfl⟩
        rfl
    · simp only [List.isEmpty_iff, hend, ↓reduceIte, reduceCtorEq, Option.some.injEq, Prod.mk.injEq,
        false_iff, not_exists]
      rintro _ _ ⟨⟨rfl, rfl⟩, hnil, -⟩
      exact hend hnil

/-- A text with a null character is malformed. -/
theorem Program.parse_of_null {text : String} (h : '\x00' ∈ text.toList) :
    ∃ pos, Program.parse text = .error (.malformedAt text pos) :=
  ⟨_, if_pos h⟩

/-- A text is malformed if its statements stop before it does. -/
theorem Program.parse_of_rest {text : String} {body : List Stmt} {stop : Cursor}
    (h : programBody (readers (text.toList.length + 1)) (.at text.toList 0) = some (body, stop))
    (hrest : stop.rest ≠ []) : ∃ pos, Program.parse text = .error (.malformedAt text pos) := by
  by_cases hnull : '\x00' ∈ text.toList
  · exact Program.parse_of_null hnull
  · have hstart : Cursor.ofText text.toList = .at text.toList 0 := rfl
    exact ⟨stop.pos, by simp [Program.parse, hnull, hstart, h, hrest]⟩

/-- A text is a program if some part of the program can be computed from it. -/
theorem Program.exists_of_parse {α : Type} {text : String} {f : Program → α} {a : α}
    (h : (Program.parse text).toOption.map f = some a) :
    ∃ p, Program.parse text = .ok p ∧ f p = a := by
  obtain ⟨p, hparse, hp⟩ := Option.map_eq_some_iff.1 h
  refine ⟨p, ?_, hp⟩
  generalize Program.parse text = outcome at hparse
  cases outcome with
  | error fault => cases hparse
  | ok q =>
    cases hparse
    rfl

/-- A program that is read is placed in its text. -/
theorem Program.placed_of_parse {text : String} {p : Program}
    (h : Program.parse text = .ok p) : (Node.program p).Placed text.toList := by
  obtain ⟨-, body, stop, hrun, -, rfl⟩ := Program.parse_eq_ok_iff.1 h
  have hagree := readers_agree text.toList 0 (Nat.le_refl (text.toList.length + 1))
  obtain ⟨hnone, -⟩ | ⟨body, body', j, hbody, -, htwins⟩ :=
    tandem_programBody (i := 0) hagree (by omega)
  · rw [hnone] at hrun
    cases hrun
  · rw [hbody] at hrun
    cases hrun
    have hrow := htwins.row
    rw [Nat.zero_add, List.drop_zero] at hrow
    exact (Node.Between.of_row rfl hrow).placed

/-- **The spans of a program nest.** Whatever a text is read as, the span of
each node starts and ends between two characters of the text, in this order;
the nodes below it lie inside it; and of these each ends before the next one
starts. -/
theorem Program.spans_nest {text : String} {p : Program} (h : Program.parse text = .ok p)
    {n : Node} (hn : n.StandsIn (.program p)) :
    n.span.Fits text.toList ∧ (∀ c ∈ n.children, c.span.Inside n.span)
      ∧ (n.children.map Node.span).Pairwise Span.Precedes := by
  obtain ⟨hfits, hinside, hordered, -⟩ := hn.placed (Program.placed_of_parse h)
  exact ⟨hfits, hinside, hordered⟩

/-- A text with characters of two bytes, parentheses and a negated number. -/
def umlautText : String :=
  "// ü\nfunction g(ä, b) \x7b switch (ä) \x7b case 'ö': return -b; default: g((ä + 1), -2); "
    ++ "\x7d \x7d"

theorem umlautText_spans_nest : ∃ p, Program.parse umlautText = .ok p
    ∧ (p.span, p.body.map Stmt.span) = (⟨0, 91⟩, [⟨6, 91⟩])
    ∧ ∀ n : Node, n.StandsIn (.program p) → n.span.Fits umlautText.toList
      ∧ (∀ c ∈ n.children, c.span.Inside n.span)
      ∧ (n.children.map Node.span).Pairwise Span.Precedes := by
  have hspans : (Program.parse umlautText).toOption.map (fun p => (p.span, p.body.map Stmt.span))
      = some (⟨0, 91⟩, [⟨6, 91⟩]) := by decide +kernel
  obtain ⟨p, hok, hp⟩ := Program.exists_of_parse hspans
  exact ⟨p, hok, hp, fun n hn => Program.spans_nest hok hn⟩

end ScriptToShell
