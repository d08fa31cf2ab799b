import Mathlib.Data.List.TakeWhile
import ScriptToShell.Emit.Source
import ScriptToShell.Proofs.ProgramPlaces
import ScriptToShell.Proofs.Spans

/-!
# The line that names an interpreter

A program may start with a line that names its interpreter. This module says
what becomes of a text that is a program when such a line is put before it.

The statements behind the line are those of the text alone, moved on by the
length of the line: the line break behind it counts as white space, and what is
read from a text does not depend on where the text starts. But two things
differ. A text whose first token is an interpreter line already, behind some
white space, has two of them then, and is no program any more. And directives
are kept behind an interpreter line, where the text alone leaves them out. A
directive is not a command, so a text with directives has no script behind an
interpreter line (`Program.parse_behind_interpreterLine`); all others have the
script they had, or the fault, but for the place it points at.
-/

namespace ScriptToShell.Grammar

open Scan

/-! ## Statements behind a line break -/

theorem marks_break (pos : Nat) (cs : List Char) :
    Reader.marks ⟨pos, '\n' :: cs⟩ = Reader.marks ⟨pos + 1, cs⟩ :=
  Reader.marks_space pos rfl cs

theorem markedStatement_break (R : Readers) (pos : Nat) (cs : List Char) :
    markedStatement R ⟨pos, '\n' :: cs⟩ = markedStatement R ⟨pos + 1, cs⟩ := by
  unfold markedStatement
  rw [Reader.bind_apply, Reader.bind_apply, marks_break]

/-- Statements behind a line break are read as they are without it, except that
the bound on their number is larger by one. -/
theorem statements_break (R : Readers) (pos : Nat) (cs : List Char) :
    statements R ⟨pos, '\n' :: cs⟩
      = statementsOf (Reader.manyUpTo (markedStatement R) (cs.length + 1)) ⟨pos + 1, cs⟩ := by
  have hbreak := markedStatement_break R pos cs
  unfold statementsOf
  rw [statements_eq, statementsOf, Reader.bind_apply, Reader.bind_apply, Reader.many_apply,
    List.length_cons]
  cases h : markedStatement R ⟨pos + 1, cs⟩ with
  | none =>
    -- No statement follows, so that the marks at the end are all there is.
    rw [h] at hbreak
    rw [Reader.manyUpTo_of_none hbreak, Reader.manyUpTo_of_none h, Option.bind_some,
      Option.bind_some, Reader.bind_apply, Reader.bind_apply, marks_break]
  | some found =>
    rw [h] at hbreak
    obtain ⟨groups, stop, hgroups⟩ :=
      Reader.exists_manyUpTo (markedStatement R) cs.length found.2
    rw [Reader.manyUpTo_succ hbreak hgroups, Reader.manyUpTo_succ h hgroups]

/-- **The statements behind a line break** are those of the text alone, moved
on. -/
theorem statements_break_alike (text : List Char) (pos : Nat) {n m : Nat} (hn : text.length < n)
    (h : n ≤ m) : ∃ body body' j,
      statements (readers n) (.at text 0) = some (body, .at text j)
      ∧ statements (readers m) ⟨pos, '\n' :: text⟩
        = some (body', (Cursor.at text j).moved (pos + 1))
      ∧ List.Forall₂ (Stmt.Alike (.moved (pos + 1))) body body' := by
  have hagree := readers_agree text (pos + 1) h
  have hend : ∀ j, text.length ≤ j → markedStatement (readers n) (.at text j) = none := by
    intro j hj
    have hat : Cursor.at text j = ⟨offsetAt text j, []⟩ :=
      congrArg (Cursor.mk _) (List.drop_eq_nil_of_le hj)
    rw [hat]
    exact markedStatement_end n _
  have htandem : Tandem text (pos + 1) 0
      (statementsOf (Reader.manyUpTo (markedStatement (readers n)) text.length))
      (statementsOf (Reader.manyUpTo (markedStatement (readers m)) (text.length + 1)))
      (TwinList text (pos + 1) (0 + spaces (text.drop 0))) :=
    tandem_statementsOf (.manyUpTo_enough (fun _ _ => tandem_markedStatement hagree (by omega))
      (fun _ _ _ _ htwins => htwins.1) hend (by omega) (by omega))
  have hmoved : (Cursor.at text 0).moved (pos + 1) = ⟨pos + 1, text⟩ :=
    congrArg (Cursor.mk · text) (Nat.zero_add (pos + 1))
  obtain ⟨hnone, -⟩ | ⟨body, body', j, hbody, hbody', htwins⟩ := htandem
  · -- Statements are read wherever a reader stands, if only none of them.
    obtain ⟨groups, stop, hgroups⟩ :=
      Reader.exists_manyUpTo (markedStatement (readers n)) text.length (.at text 0)
    simp [statementsOf, hgroups, Reader.marks_apply] at hnone
  · refine ⟨body, body', j, hbody, ?_, htwins.alike⟩
    rw [statements_break, ← hmoved]
    exact hbody'

/-! ## The line and what follows -/

/-- An interpreter line is read up to the line break. -/
theorem interpreterLine_append (pos : Nat) {name : List Char} (h : '\n' ∉ name)
    (rest : List Char) :
    interpreterLine ⟨pos, ('#' :: '!' :: name) ++ '\n' :: rest⟩
      = some ([], ⟨pos + byteLength ('#' :: '!' :: name), '\n' :: rest⟩) := by
  have htake : ((name ++ '\n' :: rest).takeWhile (· ≠ '\n')).length = name.length := by
    rw [List.takeWhile_append_of_pos fun c hc => by
      simpa using fun heq : c = '\n' => h (heq ▸ hc)]
    simp
  have hlexeme : hashBang? (('#' :: '!' :: name) ++ '\n' :: rest)
      = some ('#' :: '!' :: name).length := by
    show some (2 + ((name ++ '\n' :: rest).takeWhile (· ≠ '\n')).length) = _
    rw [htake, Nat.add_comm]
    rfl
  have hmarks : Reader.marks ⟨pos, ('#' :: '!' :: name) ++ '\n' :: rest⟩
      = some ([], ⟨pos, ('#' :: '!' :: name) ++ '\n' :: rest⟩) := rfl
  unfold interpreterLine
  rw [Reader.bind_apply, hmarks, Option.bind_some, Reader.bind_apply, Reader.token_append hlexeme]
  rfl

/-- No statement starts with an interpreter line. -/
theorem readers_statement_hashBang (n pos : Nat) (cs : List Char) :
    (readers n).statement ⟨pos, '#' :: '!' :: cs⟩ = none := by
  match n with
  | 0 => rfl
  | 1 => rfl
  | n + 2 => rfl

theorem hashBang?_eq_some {cs : List Char} {count : Nat} (h : hashBang? cs = some count) :
    ∃ rest, cs = '#' :: '!' :: rest := by
  unfold hashBang? at h
  split at h
  · exact ⟨_, rfl⟩
  · cases h

/-- Statements stop before an interpreter line that comes first. -/
theorem statements_of_line (n : Nat) {c : Cursor} (h : (interpreterLine c).isSome) :
    ∃ body pos cs, statements (readers n) c = some (body, ⟨pos, '#' :: '!' :: cs⟩) := by
  obtain ⟨marks, ⟨pos, rest⟩, hmarks⟩ : ∃ marks d, Reader.marks c = some (marks, d) := ⟨_, _, rfl⟩
  have hfound : (Reader.token hashBang? ⟨pos, rest⟩).isSome := by
    simpa [interpreterLine, hmarks] using h
  obtain ⟨cs, rfl⟩ : ∃ cs, rest = '#' :: '!' :: cs := by
    cases hlexeme : hashBang? rest with
    | none => simp [Reader.token, hlexeme] at hfound
    | some count => exact hashBang?_eq_some hlexeme
  have hnone : markedStatement (readers n) c = none := by
    simp [markedStatement, hmarks, readers_statement_hashBang]
  refine ⟨marks.map markStatement, pos, cs, ?_⟩
  simp [statements_eq, statementsOf, Reader.manyUpTo_of_none hnone, hmarks]

/-- **A text behind an interpreter line** has the statements of the text alone,
moved on, directives included. -/
theorem programBody_behind_line {name : List Char} (hname : '\n' ∉ name) (text : List Char)
    {m : Nat} (hm : text.length < m) : ∃ body body' j shift,
      statements (readers (text.length + 1)) (.at text 0) = some (body, .at text j)
      ∧ programBody (readers m) (.at (('#' :: '!' :: name) ++ '\n' :: text) 0)
        = some (body', (Cursor.at text j).moved shift)
      ∧ List.Forall₂ (Stmt.Alike (.moved shift)) body body' := by
  have hline := interpreterLine_append 0 hname text
  rw [Nat.zero_add] at hline
  obtain ⟨body, body', j, hbody, hbody', halike⟩ := statements_break_alike text
    (byteLength ('#' :: '!' :: name)) (Nat.lt_succ_self text.length) hm
  refine ⟨body, body', j, _, hbody, ?_, halike⟩
  exact (programBody_of_line hline).trans (by rw [hbody']; rfl)

end ScriptToShell.Grammar

namespace ScriptToShell

open Scan Grammar

/-- Whether an interpreter line comes first in a text, behind white space,
comments and marks. -/
def HasInterpreterLine (source : String) : Prop :=
  (interpreterLine (.ofText source.toList)).isSome

/-- **The directives of a text**: the statements at its head that are nothing
but a string. -/
def directives (source : String) : List Stmt :=
  match statements (readers (source.toList.length + 1)) (.ofText source.toList) with
  | some (body, _) => body.takeWhile isDirective
  | none => []

theorem isDirective_of_mem_directives {source : String} {s : Stmt} (h : s ∈ directives source) :
    isDirective s := by
  unfold directives at h
  split at h
  · exact List.mem_takeWhile_imp h
  · cases h

/-- What a program without an interpreter line is made of: the statements of
the text, without the directives. -/
theorem Program.statements_of_parse {source : String} {p : Program}
    (hp : Program.parse source = .ok p) (hline : ¬HasInterpreterLine source) :
    ∃ stop, statements (readers (source.toList.length + 1)) (.at source.toList 0)
      = some (directives source ++ p.body, stop) ∧ stop.rest = [] := by
  obtain ⟨-, body, stop, hrun, hrest, rfl⟩ := Program.parse_eq_ok_iff.1 hp
  have hnone : interpreterLine (.at source.toList 0) = none := Option.not_isSome_iff_eq_none.1 hline
  rw [programBody_of_no_line hnone, Option.map_eq_some_iff] at hrun
  obtain ⟨⟨all, stop'⟩, hall, heq⟩ := hrun
  cases heq
  have hdirectives : directives source = all.takeWhile isDirective := by
    have hstart : Cursor.ofText source.toList = .at source.toList 0 := rfl
    rw [directives, hstart, hall]
  refine ⟨_, ?_, hrest⟩
  rw [hdirectives, List.takeWhile_append_dropWhile]
  exact hall

/-- Statements that are alike differ in their spans only. -/
theorem Stmt.Alike.free {r : Placing} {s s' : Stmt} (h : s.Alike r s') : s.Alike .free s' := by
  have hself : s'.Alike (fun _ s s' => s = s') s' :=
    Stmt.alike_self (f := false) (fun _ => rfl) fun _ _ _ _ _ _ _ _ => rfl
  exact h.meet (fun _ _ _ _ _ _ => trivial) hself

/-- Programs that differ in their spans only have scripts that agree but for
places. -/
theorem Program.script_agrees {p q : Program} (h : p.Alike .free q) (w : Setting) :
    AgreeButForPlaces String (p.script w) (q.script w) := by
  obtain ⟨chunks, hp, hq⟩ | ⟨f, g, hp, hq, heq⟩ := Program.chunks_parallel (parallel_free w) h
  · exact .inl ⟨Shell.script w.options chunks, by rw [script, hp]; rfl, by rw [script, hq]; rfl⟩
  · exact .inr ⟨f, g, by rw [script, hp]; rfl, by rw [script, hq]; rfl, heq⟩

/-- A program that starts with a directive has no script. -/
theorem Program.script_of_directive {p : Program} {s : Stmt} {ss : List Stmt}
    (hbody : p.body = s :: ss) (hs : isDirective s) (w : Setting) :
    ∃ span, p.script w = .error (.notSupportedFor .expressionStatement
      "a bare `Literal` is not a command" span) := by
  unfold isDirective at hs
  split at hs
  · rename_i value inner outer
    refine ⟨outer, ?_⟩
    unfold Program.script Program.chunks
    rw [hbody]
    rfl
  · cases hs

section Behind

variable {p q : Program} {ds : List Stmt} {shift : Nat}
  (halike : List.Forall₂ (Stmt.Alike (.moved shift)) (ds ++ p.body) q.body)
include halike

theorem Program.alike_of_body : Program.Alike .free { p with body := ds ++ p.body } q :=
  ⟨halike.imp fun _ _ => Stmt.Alike.free, trivial⟩

/-- A program with statements before it is the program without them only if
there are none. -/
theorem Program.stripSpans_eq_iff_nil : q.stripSpans = p.stripSpans ↔ ds = [] := by
  constructor
  · intro heq
    have hlength := ((q.stripSpans_eq_iff p).1 heq).body.length_eq
    have hlength' := halike.length_eq
    rw [List.length_append] at hlength'
    exact List.length_eq_zero_iff.1 (by omega)
  · rintro rfl
    exact ((Program.stripSpans_eq_iff _ _).2 (Program.alike_of_body halike)).symm

theorem Program.script_of_directives (hds : ∀ d ∈ ds, isDirective d) (hne : ds ≠ []) (w : Setting) :
    ∃ span, q.script w = .error (.notSupportedFor .expressionStatement
      "a bare `Literal` is not a command" span) := by
  obtain ⟨d, ds', rfl⟩ := List.exists_cons_of_ne_nil hne
  rw [List.cons_append] at halike
  generalize hbody : q.body = body at halike
  cases halike with
  | cons hd _ =>
    refine Program.script_of_directive hbody ?_ w
    rw [isDirective_eq_of_alike hd]
    exact hds d List.mem_cons_self

end Behind

/-- **A program behind an interpreter line.** A text whose own first token is an
interpreter line is malformed then, and so is any text behind a line with a null
character. Any other is a program still, whose statements are those it had with
the directives before them, but for their places. So it is the program it was
exactly if it has no directives. Then it has the script it had, or a fault that
differs in its place only; with directives it has none. -/
theorem Program.parse_behind_interpreterLine {name source : String} (hname : '\n' ∉ name.toList)
    {p : Program} (hp : Program.parse source = .ok p) :
    (HasInterpreterLine source ∨ '\x00' ∈ name.toList →
        ∃ pos, Program.parse ("#!" ++ name ++ "\n" ++ source)
          = .error (.malformedAt ("#!" ++ name ++ "\n" ++ source) pos))
      ∧ (¬HasInterpreterLine source → '\x00' ∉ name.toList → ∃ q,
        Program.parse ("#!" ++ name ++ "\n" ++ source) = .ok q
        ∧ q.stripSpans = { p with body := directives source ++ p.body }.stripSpans
        ∧ (q.stripSpans = p.stripSpans ↔ directives source = [])
        ∧ ∀ w, (directives source = [] → AgreeButForPlaces String (scriptOfSource w source)
              (scriptOfSource w ("#!" ++ name ++ "\n" ++ source)))
            ∧ (directives source ≠ [] → ∃ span,
              scriptOfSource w ("#!" ++ name ++ "\n" ++ source)
                = .error (.notSupportedFor .expressionStatement
                  "a bare `Literal` is not a command" span))) := by
  have htext : ("#!" ++ name ++ "\n" ++ source).toList
      = ('#' :: '!' :: name.toList) ++ '\n' :: source.toList := by
    simp
  generalize "#!" ++ name ++ "\n" ++ source = full at htext ⊢
  obtain ⟨body, body', j, shift, hbody, hbody', halike⟩ :=
    programBody_behind_line hname source.toList (m := full.toList.length + 1)
      (by rw [htext]; simp; omega)
  rw [← htext] at hbody'
  constructor
  · rintro (hline | hnull)
    case inr => exact Program.parse_of_null (by rw [htext]; simp [hnull])
    obtain ⟨_, pos, cs, hstop⟩ := statements_of_line (source.toList.length + 1) hline
    have hat : (Cursor.at source.toList j).rest = '#' :: '!' :: cs := by
      have heq := hbody.symm.trans hstop
      exact congrArg (fun x => x.2.rest) (Option.some.inj heq)
    refine Program.parse_of_rest hbody' ?_
    rw [Cursor.rest_moved, hat]
    exact List.cons_ne_nil _ _
  · intro hline hnull
    have hfull : '\x00' ∉ full.toList := by
      rw [htext]
      simpa [hnull] using (Program.parse_eq_ok_iff.1 hp).1
    obtain ⟨stop, hstatements, hrest⟩ := Program.statements_of_parse hp hline
    rw [hbody] at hstatements
    cases hstatements
    obtain ⟨q, hq, rfl⟩ : ∃ q, Program.parse full = .ok q ∧ q.body = body' :=
      ⟨_, Program.parse_eq_ok_iff.2 ⟨hfull, body', _, hbody', hrest, rfl⟩, rfl⟩
    have hsame := Program.alike_of_body halike
    refine ⟨q, hq, ((Program.stripSpans_eq_iff _ q).2 hsame).symm,
      Program.stripSpans_eq_iff_nil halike, fun w => ?_⟩
    unfold scriptOfSource
    rw [hp, hq]
    refine ⟨fun hnil => ?_, fun hne => ?_⟩
    · rw [hnil] at hsame
      exact Program.script_agrees hsame w
    · exact Program.script_of_directives halike (fun _ => isDirective_of_mem_directives) hne w

/-- A text with a directive. -/
def strictText : String := "'use strict';f()"

theorem strictText_behind_line : '\n' ∉ "/x".toList ∧ '\x00' ∉ "/x".toList
    ∧ (∃ p, Program.parse strictText = .ok p) ∧ ¬HasInterpreterLine strictText
    ∧ directives strictText ≠ []
    ∧ ∀ w, ∃ span, scriptOfSource w ("#!" ++ "/x" ++ "\n" ++ strictText)
      = .error (.notSupportedFor .expressionStatement "a bare `Literal` is not a command"
        span) := by
  have hname : '\n' ∉ "/x".toList := by decide
  have hnull : '\x00' ∉ "/x".toList := by decide
  have hline : ¬HasInterpreterLine strictText := by
    unfold HasInterpreterLine
    decide +kernel
  have hlength : (directives strictText).length = 1 := by decide +kernel
  have hne : directives strictText ≠ [] := List.ne_nil_of_length_eq_add_one hlength
  have hparse : (Program.parse strictText).toOption.map (·.body.length) = some 1 := by
    decide +kernel
  obtain ⟨p, hp, -⟩ := Program.exists_of_parse hparse
  obtain ⟨q, -, -, -, hscripts⟩ := (Program.parse_behind_interpreterLine hname hp).2 hline hnull
  exact ⟨hname, hnull, ⟨p, hp⟩, hline, hne, fun w => (hscripts w).2 hne⟩

/-- **An interpreter line may matter**: a text with a script has none behind
it. -/
theorem strictText_not_transparent : ¬"#!".toList <+: strictText.toList
    ∧ ∃ p q w script fault, Program.parse strictText = .ok p
      ∧ Program.parse ("#!" ++ "/x" ++ "\n" ++ strictText) = .ok q ∧ q.stripSpans ≠ p.stripSpans
      ∧ scriptOfSource w strictText = .ok script
      ∧ scriptOfSource w ("#!" ++ "/x" ++ "\n" ++ strictText) = .error fault := by
  have hp : (Program.parse strictText).toOption.map (·.body.length) = some 1 := by decide +kernel
  have hq : (Program.parse ("#!" ++ "/x" ++ "\n" ++ strictText)).toOption.map (·.body.length)
      = some 2 := by decide +kernel
  have hscript : (scriptOfSource { modules := fun _ => .ok "" } strictText).toOption
      = some "#!/usr/bin/env bash\n\nf\n" := by decide +kernel
  have hfault : (scriptOfSource { modules := fun _ => .ok "" }
      ("#!" ++ "/x" ++ "\n" ++ strictText)).toOption = none := by decide +kernel
  obtain ⟨p, hp, hplength⟩ := Program.exists_of_parse hp
  obtain ⟨q, hq, hqlength⟩ := Program.exists_of_parse hq
  have hne : q.stripSpans ≠ p.stripSpans := fun heq => by
    have hlength := ((q.stripSpans_eq_iff p).1 heq).body.length_eq
    omega
  cases hs : scriptOfSource { modules := fun _ => .ok "" } strictText with
  | error fault =>
    rw [hs] at hscript
    cases hscript
  | ok script =>
    cases hf : scriptOfSource { modules := fun _ => .ok "" }
        ("#!" ++ "/x" ++ "\n" ++ strictText) with
    | error fault => exact ⟨by decide, p, q, _, script, fault, hp, hq, hne, hs, hf⟩
    | ok script' =>
      rw [hf] at hfault
      cases hfault

end ScriptToShell
