import Mathlib.Algebra.GroupWithZero.Nat
import ScriptToShell.Proofs.Enclosed
import ScriptToShell.Proofs.Transcription

/-!
# Negations in a row

In the grammar of a POSIX shell a pipeline begins with at most one `!`, so two
of them in a row are an error. A negation is written as a `!` before its
operand, and an operand that is itself a negation is not braced. This module
counts: outside of quotes, and at any depth, there are as many exclamation
marks that directly follow another one as there are negations directly below a
negation (`Expr.bangs_in_a_row`).

Text is counted from left to right by a machine with one flag, which says
whether there is nothing but blanks behind an exclamation mark (`countBang`).
What a text does to the machine does not depend on what is open around it
(`HasEffect`), and for almost all texts it is known from two things: whether
they begin with an exclamation mark, and how many of those in them count
(`solid`).
-/

namespace ScriptToShell

open Emit Shell
open Text (joinWith)

namespace Shell

/-! ## Counting -/

/-- Whether a character stands between quotes. -/
def isQuoted (x : Located) : Bool := x.1.head? = some .quotes

/-- **Counts one character.** The state is the number of exclamation marks that
directly follow another one, and whether there is nothing but blanks behind the
last one. -/
def countBang (state : Nat × Bool) (x : Located) : Nat × Bool :=
  if isQuoted x then (state.1, false)
  else if x.2 = '!' then (state.1 + state.2.toNat, true)
  else if x.2 = ' ' ∨ x.2 = '\t' then state
  else (state.1, false)

/-- **The number of exclamation marks that directly follow another one** outside
of quotes, with at most blanks between the two. -/
def bangsInARow (seen : List Located) : Nat := (seen.foldl countBang (0, false)).1

/-- An exclamation mark that is not between quotes. -/
def IsBang (x : Located) : Prop := isQuoted x = false ∧ x.2 = '!'

/-- A blank that is not between quotes. -/
def IsBlankAt (x : Located) : Prop := isQuoted x = false ∧ (x.2 = ' ' ∨ x.2 = '\t')

/-- Nothing but blanks before an exclamation mark. -/
def LeadsToBang (seen : List Located) : Prop :=
  ∃ between y after, seen = between ++ y :: after ∧ (∀ z ∈ between, IsBlankAt z) ∧ IsBang y

/-- **An exclamation mark directly follows another one.** -/
def BangsMeet (seen : List Located) : Prop :=
  ∃ before x rest, seen = before ++ x :: rest ∧ IsBang x ∧ LeadsToBang rest

theorem leadsToBang_cons (x : Located) (xs : List Located) :
    LeadsToBang (x :: xs) ↔ IsBang x ∨ IsBlankAt x ∧ LeadsToBang xs := by
  constructor
  · rintro ⟨between, y, after, heq, hblank, hbang⟩
    cases between with
    | nil =>
      cases heq
      exact .inl hbang
    | cons z between =>
      cases heq
      rw [List.forall_mem_cons] at hblank
      exact .inr ⟨hblank.1, between, y, after, rfl, hblank.2, hbang⟩
  · rintro (hbang | ⟨hx, between, y, after, rfl, hblank, hbang⟩)
    · exact ⟨[], x, xs, rfl, nofun, hbang⟩
    · exact ⟨x :: between, y, after, rfl, List.forall_mem_cons.2 ⟨hx, hblank⟩, hbang⟩

theorem bangsMeet_cons (x : Located) (xs : List Located) :
    BangsMeet (x :: xs) ↔ IsBang x ∧ LeadsToBang xs ∨ BangsMeet xs := by
  constructor
  · rintro ⟨before, y, rest, heq, hbang, hleads⟩
    cases before with
    | nil =>
      cases heq
      exact .inl ⟨hbang, hleads⟩
    | cons z before =>
      cases heq
      exact .inr ⟨before, y, rest, rfl, hbang, hleads⟩
  · rintro (⟨hbang, hleads⟩ | ⟨before, y, rest, rfl, hbang, hleads⟩)
    · exact ⟨[], x, xs, rfl, hbang, hleads⟩
    · exact ⟨x :: before, y, rest, rfl, hbang, hleads⟩

/-- The count never falls, and it rises exactly if an exclamation mark follows
another one, be it the one that the flag stands for. -/
theorem lt_foldl_countBang (seen : List Located) (n : Nat) (flag : Bool) :
    n ≤ (seen.foldl countBang (n, flag)).1
      ∧ (n < (seen.foldl countBang (n, flag)).1
        ↔ BangsMeet seen ∨ flag = true ∧ LeadsToBang seen) := by
  -- the flag stands for an exclamation mark before the text, so both values are needed
  induction seen generalizing n flag with
  | nil => simp [BangsMeet, LeadsToBang]
  | cons x xs ih =>
    rw [List.foldl_cons, bangsMeet_cons, leadsToBang_cons]
    by_cases hbang : IsBang x
    · have hstep : countBang (n, flag) x = (n + flag.toNat, true) := by
        simp [countBang, hbang.1, hbang.2]
      have hblank : ¬ IsBlankAt x := fun h => by simp [IsBlankAt, hbang.2] at h
      rw [hstep]
      cases flag with
      | false => simpa [hbang, hblank, or_comm] using ih n true
      | true =>
        have hle : n + 1 ≤ (xs.foldl countBang (n + 1, true)).1 := (ih (n + 1) true).1
        exact ⟨Nat.le_of_succ_le hle, iff_of_true hle (.inr ⟨rfl, .inl hbang⟩)⟩
    · by_cases hblank : IsBlankAt x
      · have hstep : countBang (n, flag) x = (n, flag) := by
          have hne : x.2 ≠ '!' := by rcases hblank.2 with h | h <;> rw [h] <;> decide
          simp [countBang, hblank.1, hblank.2, hne]
        rw [hstep]
        simpa [hbang, hblank] using ih n flag
      · have hstep : countBang (n, flag) x = (n, false) := by
          unfold countBang
          unfold IsBang at hbang
          unfold IsBlankAt at hblank
          grind
        rw [hstep]
        simpa [hbang, hblank] using ih n false

theorem bangsInARow_ne_zero_iff (seen : List Located) : bangsInARow seen ≠ 0 ↔ BangsMeet seen := by
  have hlt := (lt_foldl_countBang seen 0 false).2
  rw [bangsInARow, ← Nat.pos_iff_ne_zero, hlt]
  simp

/-- **What a text does to the count**, wherever it stands outside of quotes. -/
def HasEffect (text : String) (f : Nat × Bool → Nat × Bool) : Prop :=
  ∀ frames : List Frame, frames.head? ≠ some .quotes →
    ∃ seen, Traces frames text.toList seen ∧ ∀ state, seen.foldl countBang state = f state

theorem HasEffect.append {s t : String} {f g : Nat × Bool → Nat × Bool} (hs : HasEffect s f)
    (ht : HasEffect t g) : HasEffect (s ++ t) (g ∘ f) := by
  intro frames hframes
  obtain ⟨xs, hxs, hf⟩ := hs frames hframes
  obtain ⟨ys, hys, hg⟩ := ht frames hframes
  refine ⟨xs ++ ys, ?_, fun state => ?_⟩
  · rw [String.toList_append]
    exact hxs.append hys
  · rw [List.foldl_append, hf, hg]
    rfl

/-- The effect of a text that has some of its own count, and at whose end no
exclamation mark waits for another one. Its first one may count as well. -/
def solid (negated : Bool) (count : Nat) (state : Nat × Bool) : Nat × Bool :=
  (state.1 + (state.2 && negated).toNat + count, false)

/-- **A text with the effect of a word or a test.** -/
def IsSolid (text : String) (negated : Bool) (count : Nat) : Prop :=
  HasEffect text (solid negated count)

theorem IsSolid.append {s t : String} {negated negated' : Bool} {k l : Nat}
    (hs : IsSolid s negated k) (ht : IsSolid t negated' l) : IsSolid (s ++ t) negated (k + l) := by
  have heffect : solid negated' l ∘ solid negated k = solid negated (k + l) := by
    funext state
    simp [solid, Nat.add_assoc]
  rw [IsSolid, ← heffect]
  exact HasEffect.append hs ht

/-! ### Text without effect -/

/-- Characters of which none counts and one is more than a blank. -/
theorem foldl_countBang {seen : List Located} (hcalm : ∀ x ∈ seen, isQuoted x = true ∨ x.2 ≠ '!')
    (hvisible : ∃ x ∈ seen, isQuoted x = true ∨ x.2 ≠ ' ' ∧ x.2 ≠ '\t') (state : Nat × Bool) :
    seen.foldl countBang state = solid false 0 state := by
  have hstep : ∀ (x : Located) (state : Nat × Bool), (isQuoted x = true ∨ x.2 ≠ '!') →
      countBang state x = state ∨ countBang state x = (state.1, false) := by
    intro x state hx
    unfold countBang
    grind
  have hcount : ∀ (xs : List Located), (∀ x ∈ xs, isQuoted x = true ∨ x.2 ≠ '!') → ∀ n : Nat,
      xs.foldl countBang (n, false) = (n, false) := by
    intro xs hxs n
    induction xs with
    | nil => rfl
    | cons x xs ih =>
      rw [List.forall_mem_cons] at hxs
      rw [List.foldl_cons]
      rcases hstep x (n, false) hxs.1 with heq | heq <;> rw [heq] <;> exact ih hxs.2
  have hzero : solid false 0 state = (state.1, false) := by
    simp [solid]
  rw [hzero]
  -- blanks keep the flag; the first character that is more than a blank takes it down for good
  induction seen generalizing state with
  | nil =>
    obtain ⟨x, hx, -⟩ := hvisible
    cases hx
  | cons x xs ih =>
    rw [List.forall_mem_cons] at hcalm
    rw [List.foldl_cons]
    by_cases hx : isQuoted x = true ∨ x.2 ≠ ' ' ∧ x.2 ≠ '\t'
    · have hreset : countBang state x = (state.1, false) := by
        unfold countBang
        grind
      rw [hreset]
      exact hcount xs hcalm.2 state.1
    · obtain ⟨y, hy, hvisible⟩ := hvisible
      rcases List.mem_cons.1 hy with rfl | hmem
      · exact absurd hvisible hx
      · rcases hstep x state hcalm.1 with heq | heq <;> rw [heq]
        · exact ih hcalm.2 ⟨y, hmem, hvisible⟩ state (by simp [solid])
        · exact hcount xs hcalm.2 state.1

/-- A text without an exclamation mark that is more than blanks. -/
theorem isSolid_of_not_mem {text : String} (hbang : '!' ∉ text.toList)
    (hvisible : ∃ c ∈ text.toList, c ≠ ' ' ∧ c ≠ '\t')
    (h : ∀ frames : List Frame, frames.head? ≠ some .quotes →
      ∃ seen, Traces frames text.toList seen) : IsSolid text false 0 := by
  intro frames hframes
  obtain ⟨seen, hseen⟩ := h frames hframes
  have hmem : ∀ c, c ∈ text.toList ↔ ∃ x ∈ seen, x.2 = c := fun c => by
    rw [← hseen.map_snd, List.mem_map]
  refine ⟨seen, hseen, foldl_countBang (fun x hx => .inr fun heq => ?_) ?_⟩
  · exact hbang ((hmem '!').2 ⟨x, hx, heq⟩)
  · obtain ⟨c, hc, hblank⟩ := hvisible
    obtain ⟨x, hx, rfl⟩ := (hmem c).1 hc
    exact ⟨x, hx, .inr hblank⟩

/-- Whether a text opens and closes nothing, has no exclamation mark and is more
than blanks. -/
def isCalm (text : String) : Bool :=
  text.toList.all (· ∉ '!' :: tracedBare) && text.toList.any fun c => c ≠ ' ' && c ≠ '\t'

/-- A fixed text. -/
theorem isSolid_of_isCalm {text : String} (h : isCalm text = true) : IsSolid text false 0 := by
  obtain ⟨hall, hany⟩ := Bool.and_eq_true_iff.1 h
  have hchars : ∀ c ∈ text.toList, c ≠ '!' ∧ c ∉ tracedBare := fun c hc => by
    simpa [not_or] using List.all_eq_true.1 hall c hc
  refine isSolid_of_not_mem (fun hmem => (hchars '!' hmem).1 rfl) (by simpa using hany) ?_
  exact fun frames hframes => ⟨_, traces_of_forall fun c hc => traces_bare hframes (hchars c hc).2⟩

theorem Inert.isSolid {text : String} (h : Inert text) : IsSolid text false 0 :=
  isSolid_of_not_mem h.calm h.visible fun frames _ => ⟨_, h.traces frames⟩

/-- The text of a literal, which may have exclamation marks between its
quotes. -/
theorem isSolid_literal {text : String} (h : ∀ c ∈ text.toList, c ∉ activeCharacters) :
    IsSolid ("\"" ++ text ++ "\"") false 0 := by
  intro frames hframes
  refine ⟨_, by simpa using traces_literal hframes h, foldl_countBang ?_ ?_⟩
  · simp only [List.forall_mem_cons, List.forall_mem_append, allIn, List.forall_mem_map]
    exact ⟨.inr (by simp), fun _ _ => .inl rfl, .inl rfl, List.forall_mem_nil _⟩
  · exact ⟨_, List.mem_cons_self, .inr (by simp)⟩

/-- Quotes around a text that stays between them. -/
theorem isSolid_quotes (text : String) (hbang : '!' ∉ text.toList)
    (h : ∀ frames, ∃ seen, Traces (.quotes :: frames) text.toList seen) :
    IsSolid ("\"" ++ text ++ "\"") false 0 := by
  refine isSolid_of_not_mem (by simpa using hbang) ⟨'"', by simp, by decide, by decide⟩ ?_
  intro frames hframes
  obtain ⟨seen, hseen⟩ := h frames
  exact ⟨_, by simpa using hseen.quotes hframes⟩

/-- The value of a variable. -/
theorem isSolid_reference {name : String} (h : Inert name) :
    IsSolid ("\"$" ++ name ++ "\"") false 0 := by
  have hquotes : IsSolid ("\"" ++ ("$" ++ name) ++ "\"") false 0 := by
    refine isSolid_quotes _ (by simpa using h.calm) fun frames => ?_
    rw [String.toList_append]
    exact ⟨_, (traces_quoted (c := '$') (by decide)).append (h.traces (.quotes :: frames))⟩
  simpa [← String.append_assoc] using hquotes

/-! ### Text put together -/

/-- A blank changes nothing. -/
theorem hasEffect_blank : HasEffect " " id := fun frames hframes =>
  ⟨_, traces_bare (c := ' ') hframes (by decide), fun state => by
    simp [countBang, isQuoted, hframes]⟩

theorem IsSolid.blank_after {s : String} {negated : Bool} {k : Nat} (h : IsSolid s negated k) :
    IsSolid (s ++ " ") negated k :=
  HasEffect.append h hasEffect_blank

theorem IsSolid.blank_before {s : String} {negated : Bool} {k : Nat} (h : IsSolid s negated k) :
    IsSolid (" " ++ s) negated k :=
  hasEffect_blank.append h

/-- An exclamation mark waits for another one. -/
theorem hasEffect_bang : HasEffect "!" fun state => (state.1 + state.2.toNat, true) :=
  fun frames hframes => ⟨_, traces_bare (c := '!') hframes (by decide), fun state => by
    simp [countBang, isQuoted, hframes]⟩

/-- **An exclamation mark before a text** counts the one at its front. -/
theorem IsSolid.bang {s : String} {negated : Bool} {k : Nat} (h : IsSolid s negated k) :
    IsSolid ("!" ++ s) true (k + negated.toNat) := by
  have heffect : (solid negated k ∘ fun state : Nat × Bool => (state.1 + state.2.toNat, true))
      = solid true (k + negated.toNat) := by
    funext state
    simp [solid, Nat.add_assoc, Nat.add_comm negated.toNat k]
  rw [IsSolid, ← heffect]
  exact hasEffect_bang.append h

/-- **A text between parentheses** counts what is in it, and has nothing at its
front. -/
theorem foldl_countBang_between {before after seen : List Located} {negated : Bool} {k : Nat}
    (hbefore : ∀ state, before.foldl countBang state = solid false 0 state)
    (h : ∀ state, seen.foldl countBang state = solid negated k state)
    (hafter : ∀ state, after.foldl countBang state = solid false 0 state) (state : Nat × Bool) :
    (before ++ seen ++ after).foldl countBang state = solid false k state := by
  rw [List.foldl_append, List.foldl_append, hbefore, h, hafter]
  simp [solid]

/-- Around a substitution there may be quotes. -/
theorem IsSolid.exists_traces {t : String} {negated : Bool} {k : Nat} (h : IsSolid t negated k)
    (frames : List Frame) : ∃ seen, Traces frames ("$(" ++ t ++ ")").toList seen := by
  obtain ⟨seen, hseen, -⟩ := h (.parens :: frames) (by simp)
  exact ⟨_, by simpa using traces_substitution hseen⟩

theorem IsSolid.substitution {t : String} {negated : Bool} {k : Nat} (h : IsSolid t negated k) :
    IsSolid ("$(" ++ t ++ ")") false k := by
  intro frames hframes
  obtain ⟨seen, hseen, heffect⟩ := h (.parens :: frames) (by simp)
  refine ⟨_, by simpa using traces_substitution hseen, ?_⟩
  have hopen : ∀ state, [(frames, '$'), (frames, '(')].foldl countBang state
      = solid false 0 state := foldl_countBang (by simp) (by simp)
  have hclose : ∀ state, [(Frame.parens :: frames, ')')].foldl countBang state
      = solid false 0 state := foldl_countBang (by simp) (by simp)
  simpa using foldl_countBang_between hopen heffect hclose

theorem IsSolid.arithmetic {t : String} {negated : Bool} {k : Nat} (h : IsSolid t negated k) :
    IsSolid ("$((" ++ t ++ "))") false k := by
  intro frames hframes
  obtain ⟨seen, hseen, heffect⟩ := h (.parens :: .parens :: frames) (by simp)
  refine ⟨_, by simpa using traces_substitution (traces_parens hseen), ?_⟩
  have hopen : ∀ state,
      [(frames, '$'), (frames, '('), (.parens :: frames, '(')].foldl countBang state
        = solid false 0 state := foldl_countBang (by simp) (by simp)
  have hclose : ∀ state,
      [(.parens :: .parens :: frames, ')'), (.parens :: frames, ')')].foldl countBang state
        = solid false 0 state := foldl_countBang (by simp) (by simp)
  simpa using foldl_countBang_between hopen heffect hclose

/-! ## The parts of generated text -/

/-- The name of the running script. -/
theorem isSolid_self : IsSolid "\"$0\"" false 0 := by
  have hall : "$0".toList.all (· ∉ tracedQuoted) = true := by decide
  exact isSolid_quotes "$0" (by decide) fun frames => ⟨_, traces_of_forall fun c hc =>
    traces_quoted (of_decide_eq_true (List.all_eq_true.1 hall c hc))⟩

/-- The path of the running script, without the substitution around it. -/
theorem isSolid_realpath : IsSolid "realpath \"$0\"" false 0 :=
  have hcommand : IsSolid "realpath " false 0 := isSolid_of_isCalm (by decide)
  hcommand.append isSolid_self

theorem isSolid_memberText {object : Expr} {property : String} {span : Span} {text : String}
    (h : memberText object property span = .ok text) : IsSolid text false 0 := by
  rcases memberText_cases h with rfl | rfl
  · have hcommand : IsSolid "dirname " false 0 := isSolid_of_isCalm (by decide)
    have hquoted := isSolid_quotes "$(realpath \"$0\")" (by decide)
      fun frames => isSolid_realpath.exists_traces (.quotes :: frames)
    exact (hcommand.append hquoted).substitution
  · exact isSolid_realpath.substitution

/-- The operator of a test may begin with an exclamation mark. -/
theorem isSolid_testOperator {op : BinaryOp} {span : Span} {o : String}
    (h : testOperator op span = .ok o) : ∃ negated, IsSolid o negated 0 := by
  have hcases : ∀ o ∈ testOperators, o = "!=" ∨ isCalm o = true := by decide
  rcases hcases o (mem_testOperators h) with rfl | hcalm
  · have hequals : IsSolid "=" false 0 := isSolid_of_isCalm (by decide)
    exact ⟨true, hequals.bang⟩
  · exact ⟨false, isSolid_of_isCalm hcalm⟩

theorem isSolid_arithmeticOperator {target : Target} {op : BinaryOp} {span : Span} {o : String}
    (h : arithmeticOperator op target span = .ok o) : IsSolid o false 0 := by
  refine isSolid_of_isCalm ?_
  have hop := isComparison_of_arithmeticOperator h
  rw [token_of_arithmeticOperator h]
  revert hop
  cases op <;> decide

/-- The word of a test is a substitution. -/
theorem booleanWord_eq (t : String) :
    booleanWord t
      = "$(" ++ (" if " ++ t ++ "; then printf true; else printf false; fi ") ++ ")" := by
  rw [← String.toList_inj]
  simp [booleanWord]

/-- An expansion of two words has a blank on each side. -/
theorem arithmetic_eq (l o r : String) :
    "$(( " ++ l ++ " " ++ o ++ " " ++ r ++ " ))"
      = "$((" ++ (" " ++ l ++ " " ++ o ++ " " ++ r ++ " ") ++ "))" := by
  rw [← String.toList_inj]
  simp

/-- What is substituted for a test. -/
theorem IsSolid.branches {t : String} {negated : Bool} {k : Nat} (h : IsSolid t negated k) :
    IsSolid (" if " ++ t ++ "; then printf true; else printf false; fi ") false k := by
  have hif : IsSolid " if " false 0 := isSolid_of_isCalm (by decide)
  have hfi : IsSolid "; then printf true; else printf false; fi " false 0 :=
    isSolid_of_isCalm (by decide)
  simpa using (hif.append h).append hfi

/-- What is computed from two words. -/
theorem IsSolid.operands {target : Target} {op : BinaryOp} {span : Span} {l o r : String}
    {k k' : Nat} (hl : IsSolid l false k) (ho : arithmeticOperator op target span = .ok o)
    (hr : IsSolid r false k') :
    IsSolid (" " ++ l ++ " " ++ o ++ " " ++ r ++ " ") false (k + k') :=
  ((hl.blank_before.blank_after.append (isSolid_arithmeticOperator ho)).blank_after.append
    hr).blank_after

/-- The four tests of a word, which counts nothing itself. -/
theorem isSolid_truthy {w : String} (h : IsSolid w false 0) : IsSolid (truthy w) false 0 := by
  have hempty : IsSolid "[ -n " false 0 := isSolid_of_isCalm (by decide)
  have hnext : IsSolid " ] && [ " false 0 := isSolid_of_isCalm (by decide)
  have hfalse : IsSolid "= false ] && [ " false 0 := isSolid_of_isCalm (by decide)
  have hzero : IsSolid "= 0 ] && [ " false 0 := isSolid_of_isCalm (by decide)
  have hnull : IsSolid "= null ]" false 0 := isSolid_of_isCalm (by decide)
  exact (((((((hempty.append h).append hnext).append h).append hfalse.bang.blank_before).append
    h).append hzero.bang.blank_before).append h).append hnull.bang.blank_before

/-- Braces keep the exclamation mark at the front of a test apart. -/
theorem IsSolid.bracedIf {t : String} {negated : Bool} {k : Nat} (h : IsSolid t negated k)
    (needed : Bool) : IsSolid (bracedIf needed t) (negated && !needed) k := by
  cases needed with
  | false => simpa [Emit.bracedIf] using h
  | true =>
    have hopen : IsSolid "\x7b " false 0 := isSolid_of_isCalm (by decide)
    have hclose : IsSolid "; \x7d" false 0 := isSolid_of_isCalm (by decide)
    simpa [Emit.bracedIf, braced] using (hopen.append h).append hclose

/-- A line that prints a value. -/
theorem isSolid_echo {v redirection : String} {k : Nat} (h : IsSolid v false k)
    (hredirection : redirection ∈ redirections) :
    IsSolid ("echo " ++ v ++ redirection) false k := by
  have hecho : IsSolid "echo " false 0 := isSolid_of_isCalm (by decide)
  have herror : IsSolid " >&2" false 0 := isSolid_of_isCalm (by decide)
  simp only [redirections, List.mem_cons, List.not_mem_nil, or_false] at hredirection
  rcases hredirection with rfl | rfl
  · simpa using hecho.append h
  · simpa using (hecho.append h).append herror

end Shell

/-! ## Negations below negations -/

/-- Whether an expression is a negation. -/
def Expr.isNegation : Expr → Bool
  | .not .. => true
  | _ => false

/-- Whether there is a negation directly below a negation at a position. -/
def Position.isDoubled : Position → Bool
  | .expression (.not argument _) _ => argument.isNegation
  | _ => false

namespace Expr

/-- **The number of negations directly below a negation** in an expression. -/
def doubledNegations (e : Expr) : Nat := (e.positions .value).countP Position.isDoubled

/-- **Whether a test begins with an exclamation mark.** -/
def startsNegated : Expr → Bool
  | .not .. => true
  | .logical op left _ _ => !left.needsBraces op && left.startsNegated
  | _ => false

section Count

variable (op : BinaryOp) (e left right callee : Expr) (arguments : List Expr) (span : Span)

theorem countP_condition : (e.positions .condition).countP Position.isDoubled
    = e.doubledNegations := by
  cases e <;> rfl

theorem countP_partsAll (es : List Expr) :
    (partsAll es).countP Position.isDoubled = (es.map doubledNegations).sum := by
  induction es with
  | nil =>
    rw [partsAll]
    rfl
  | cons e es ih =>
    rw [partsAll, List.countP_append, ih]
    rfl

theorem doubledNegations_binary : (binary op left right span).doubledNegations
    = left.doubledNegations + right.doubledNegations := by
  rw [doubledNegations, positions_binary, List.countP_cons_of_neg (by simp [Position.isDoubled]),
    List.countP_append]
  rfl

theorem doubledNegations_logical (op : LogicalOp) :
    (logical op left right span).doubledNegations
      = left.doubledNegations + right.doubledNegations := by
  rw [doubledNegations, positions_logical, List.countP_cons_of_neg (by simp [Position.isDoubled]),
    List.countP_append, countP_condition, countP_condition]

theorem doubledNegations_not :
    (not e span).doubledNegations = e.doubledNegations + e.isNegation.toNat := by
  rw [doubledNegations, positions_not, List.countP_cons, countP_condition]
  cases e <;> rfl

variable {callee arguments span} in
/-- The callee of a call that is written is a name or a method, without any
negation. -/
theorem doubledNegations_call {target : Target} {text : String}
    (h : callText callee arguments span (texts target arguments) = .ok text) :
    (call callee arguments span).doubledNegations = (arguments.map doubledNegations).sum := by
  have hcallee : (callee.positions .callee).countP Position.isDoubled = 0 := by
    cases callee with
    | identifier name s => rfl
    | member object property s =>
      rw [callText_member] at h
      cases object with
      | identifier name s => rfl
      | _ => cases h
    | _ => cases h
  rw [doubledNegations, positions_call, List.countP_cons_of_neg (by simp [Position.isDoubled]),
    List.countP_append, countP_partsAll, hcallee, Nat.zero_add]

/-- An operand that stands directly behind an exclamation mark begins with one
exactly if it is a negation: a logical operator is braced there. -/
theorem startsNegated_operand : (e.startsNegated && !e.needsBraces none) = e.isNegation := by
  cases e with
  | logical op left right span => simp [needsBraces, isNegation]
  | _ => rfl

end Count

end Expr

/-- The number of negations directly below a negation in what a text is written
for. -/
def Piece.doubledNegations : Piece → Nat
  | .value e | .argument e | .test e => e.doubledNegations
  | .arguments es | .prints _ es | .command _ es _ => (es.map Expr.doubledNegations).sum

/-- Whether the text of a piece begins with an exclamation mark. -/
def Piece.startsNegated : Piece → Bool
  | .test e => e.startsNegated
  | _ => false

open ScriptToShell.Expr in
/-- **What is written for an expression counts its doubled negations.** -/
theorem Transcribes.isSolid {ok : String → Prop} (hok : ∀ name, ok name → Inert name)
    {target : Target} {p : Piece} {text : String} (h : Transcribes ok target p text) :
    IsSolid text p.startsNegated p.doubledNegations := by
  induction h with
  | reference h => exact isSolid_reference (hok _ h)
  | quoted h => exact isSolid_literal h
  | @property object property text span h =>
    obtain ⟨⟨s, rfl⟩, -⟩ := (accepted_memberText object property span).1 ⟨text, h⟩
    exact isSolid_memberText h
  | arithmetic ho hl hr ihl ihr =>
    rw [arithmetic_eq, Piece.doubledNegations, doubledNegations_binary]
    exact (ihl.operands ho ihr).arithmetic
  | boolean he h ih =>
    rw [booleanWord_eq]
    exact ih.branches.substitution
  | substitution h ih =>
    rw [Piece.doubledNegations, doubledNegations_call h.text_eq]
    exact ih.substitution
  | number h => exact (inert_of_isBare h).isSolid
  | word he h ih => exact ih
  | last h ih => exact ih
  | more ha has iha ihas => exact iha.blank_after.append ihas
  | name h => exact (hok _ h).isSolid
  | call h has ih =>
    have hcommand := (hok _ h).isSolid.blank_after.append ih
    rwa [Nat.zero_add] at hcommand
  | echo h =>
    have hcalm : ∀ r ∈ redirections, isCalm ("echo" ++ r) = true := by decide
    exact isSolid_of_isCalm (hcalm _ (mem_redirections h))
  | prints h ht ih => exact ih
  | line hredirection hv ih => exact isSolid_echo ih hredirection
  | lines hredirection hv ht ihv iht =>
    have hfeed : IsSolid "\n" false 0 := isSolid_of_isCalm (by decide)
    exact ((isSolid_echo ihv hredirection).append hfeed).append iht
  | @comparison op left right span l o r ho hl hr ihl ihr =>
    obtain ⟨negated, hoperator⟩ := isSolid_testOperator ho
    have hopen : IsSolid "[ " false 0 := isSolid_of_isCalm (by decide)
    have hclose : IsSolid " ]" false 0 := isSolid_of_isCalm (by decide)
    have htest := (((hopen.append ihl).blank_after.append hoperator).blank_after.append ihr).append
      hclose
    rw [Nat.zero_add] at htest
    rw [Piece.doubledNegations, doubledNegations_binary]
    exact htest
  | nonzero hop h ih =>
    have hopen : IsSolid "[ " false 0 := isSolid_of_isCalm (by decide)
    have hclose : IsSolid " -ne 0 ]" false 0 := isSolid_of_isCalm (by decide)
    have htest := (hopen.append ih).append hclose
    rwa [Nat.zero_add] at htest
  | referenceTest h => exact isSolid_truthy (isSolid_reference (hok _ h))
  | @propertyTest object property text span h =>
    obtain ⟨⟨s, rfl⟩, -⟩ := (accepted_memberText object property span).1 ⟨text, h⟩
    exact isSolid_truthy (isSolid_memberText h)
  | @constant value span =>
    show IsSolid (if value.truth then "true" else "false") false 0
    cases value.truth <;> exact isSolid_of_isCalm (by decide)
  | status h ih =>
    rw [Piece.doubledNegations, doubledNegations_call h.text_eq]
    exact ih
  | @logical op left right span l r hl hr ihl ihr =>
    have htoken : IsSolid op.token false 0 := isSolid_of_isCalm (by cases op <;> decide)
    have hleft := (ihl.bracedIf (left.needsBraces op)).blank_after
    have htest := (hleft.append htoken).blank_after.append (ihr.bracedIf (right.needsBraces op))
    have hfront : (left.startsNegated && !left.needsBraces op)
        = (Expr.logical op left right span).startsNegated := by
      rw [Expr.startsNegated, Bool.and_comm]
    rw [Piece.doubledNegations, doubledNegations_logical, Piece.startsNegated, ← hfront]
    exact htest
  | @negated e span t h ih =>
    -- the new exclamation mark counts the one at the front of the operand, if it is not braced
    have hnegated := (ih.bracedIf (e.needsBraces none)).blank_before.bang
    rw [Piece.doubledNegations, doubledNegations_not, ← startsNegated_operand]
    have htext : "!" ++ (" " ++ bracedIf (e.needsBraces none) t)
        = "! " ++ bracedIf (e.needsBraces none) t := by
      rw [← String.append_assoc]
      rfl
    rwa [htext] at hnegated

namespace Expr

/-- **Exclamation marks in a row are negations below negations.** In a test,
outside of quotes and at whatever depth, as many exclamation marks directly
follow another one as negations of the expression are directly below a negation.
So a test has none that a shell without such pipelines refuses exactly if no
negation is negated as it is. -/
theorem bangs_in_a_row {target : Target} {e : Expr} {text : String}
    (hnames : ∀ name ∈ e.names, IsIdentifier name) (h : e.condition target = .ok text) :
    ∃ seen, located? text = some seen
      ∧ bangsInARow seen = e.doubledNegations
      ∧ (BangsMeet seen ↔ ∃ argument inner outer role,
        .expression (.not (.not argument inner) outer) role ∈ e.positions .condition) := by
  have hsolid := (transcribes_condition hnames h).isSolid fun _ => IsIdentifier.inert
  obtain ⟨seen, hseen, heffect⟩ := hsolid [] (by simp)
  have hcount : bangsInARow seen = e.doubledNegations := by
    rw [bangsInARow, heffect]
    simp [solid, Piece.doubledNegations]
  refine ⟨seen, located?_of_traces hseen, hcount, ?_⟩
  rw [← bangsInARow_ne_zero_iff, hcount, ← countP_condition, ← Nat.pos_iff_ne_zero,
    List.countP_pos_iff]
  constructor
  · rintro ⟨x, hx, hdoubled⟩
    unfold Position.isDoubled at hdoubled
    split at hdoubled
    · rename_i argument outer role
      cases argument with
      | not argument inner => exact ⟨argument, inner, outer, role, hx⟩
      | _ => cases hdoubled
    · cases hdoubled
  · rintro ⟨argument, inner, outer, role, hx⟩
    exact ⟨_, hx, rfl⟩

/-- A negation of a conjunction that begins with a negation. -/
def guardedNegation : Expr :=
  .not (.logical .and (.not (.call (.identifier "stale" .nowhere) [] .nowhere) .nowhere)
    (.binary .notEqual (.identifier "$a" .nowhere) (.literal (.string "! !") .nowhere) .nowhere)
    .nowhere) .nowhere

/-- The text of `guardedNegation` as a condition. -/
def guardedNegationText : String := "! \x7b ! stale && [ \"$$a\" != \"! !\" ]; \x7d"

/-- Braces keep the two negations apart. -/
theorem guardedNegation_bangs :
    (∀ name ∈ guardedNegation.names, IsIdentifier name)
      ∧ guardedNegation.condition .posix = .ok guardedNegationText
      ∧ guardedNegation.doubledNegations = 0
      ∧ ∃ seen, located? guardedNegationText = some seen
        ∧ bangsInARow seen = guardedNegation.doubledNegations
        ∧ (BangsMeet seen ↔ ∃ argument inner outer role,
          .expression (.not (.not argument inner) outer) role
            ∈ guardedNegation.positions .condition) :=
  have hnames : ∀ name ∈ guardedNegation.names, IsIdentifier name := by decide +kernel
  have htext : guardedNegation.condition .posix = .ok guardedNegationText := by rfl
  ⟨hnames, htext, by rfl, bangs_in_a_row hnames htext⟩

/-- A negated negation of a call. -/
def doubleNegation : Expr :=
  .not (.not (.call (.identifier "f" .nowhere) [] .nowhere) .nowhere) .nowhere

/-- **A negation of a negation is written without braces**, also for a shell in
which a pipeline has one negation. -/
theorem doubleNegation_bangs_meet :
    doubleNegation.condition .posix = .ok "! ! f"
      ∧ ∃ seen, located? "! ! f" = some seen ∧ bangsInARow seen = 1 ∧ BangsMeet seen :=
  ⟨rfl, [([], '!'), ([], ' '), ([], '!'), ([], ' '), ([], 'f')], rfl, rfl,
    (bangsInARow_ne_zero_iff _).1 (by decide)⟩

end Expr

end ScriptToShell
