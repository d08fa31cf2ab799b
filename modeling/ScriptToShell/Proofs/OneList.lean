import ScriptToShell.Proofs.Condition
import ScriptToShell.Proofs.Negation

/-!
# When a condition is one list of commands

A line feed ends a list of commands. So a condition that has one is no operand
any more: what stands behind the line feed runs whether or not the operator
before it lets it run, and a negation does not reach it.

A call that prints several values is a command for each, with line feeds between
them. Inside of a substitution this does no harm, but a call may also be a leaf
of a condition. This module counts the line feeds of a condition that are
outside of substitutions, and says that it is one list, which runs as the
expression is evaluated, exactly if there are none
(`Expr.line_feeds_of_condition`).
-/

namespace ScriptToShell

open Emit Shell
open Text (joinWith)

namespace Shell

/-! ## Line feeds outside of substitutions -/

/-- Whether a character is a line feed outside of substitutions. -/
def isFreeFeed (x : Located) : Bool := x.2 = '\n' && .parens ∉ x.1

/-- **The number of line feeds outside of substitutions.** -/
def lineFeeds (seen : List Located) : Nat := seen.countP isFreeFeed

/-- **A text with a number of line feeds outside of substitutions**, none of
them between quotes. -/
def Feeds (text : String) (k : Nat) : Prop :=
  ∃ seen, Traces [] text.toList seen ∧ lineFeeds seen = k
    ∧ ∀ x ∈ seen, isFreeFeed x = true → x.1 = []

theorem Feeds.append {s t : String} {k l : Nat} (hs : Feeds s k) (ht : Feeds t l) :
    Feeds (s ++ t) (k + l) := by
  obtain ⟨xs, hxs, hk, hbare⟩ := hs
  obtain ⟨ys, hys, hl, hbare'⟩ := ht
  refine ⟨xs ++ ys, ?_, ?_, List.forall_mem_append.2 ⟨hbare, hbare'⟩⟩
  · rw [String.toList_append]
    exact hxs.append hys
  · rw [lineFeeds, List.countP_append, ← hk, ← hl]
    rfl

theorem feeds_of_forall {text : String} {seen : List Located} (h : Traces [] text.toList seen)
    (hnone : ∀ x ∈ seen, isFreeFeed x = false) : Feeds text 0 := by
  refine ⟨seen, h, ?_, fun x hx hfeed => ?_⟩
  · rw [lineFeeds, List.countP_eq_zero]
    exact fun x hx => by simp [hnone x hx]
  · rw [hnone x hx] at hfeed
    cases hfeed

/-- A text without a line feed. -/
theorem feeds_of_not_mem {text : String} {seen : List Located} (h : Traces [] text.toList seen)
    (hline : '\n' ∉ text.toList) : Feeds text 0 := by
  refine feeds_of_forall h fun x hx => ?_
  have hne : x.2 ≠ '\n' := by
    intro heq
    rw [← h.map_snd, ← heq] at hline
    exact hline (List.mem_map_of_mem hx)
  simp [isFreeFeed, hne]

theorem Inert.feeds {text : String} (h : Inert text) : Feeds text 0 :=
  feeds_of_not_mem (h.traces []) h.line

theorem IsSolid.feeds {text : String} {negated : Bool} {k : Nat} (h : IsSolid text negated k)
    (hline : '\n' ∉ text.toList) : Feeds text 0 := by
  obtain ⟨seen, hseen, -⟩ := h [] (by simp)
  exact feeds_of_not_mem hseen hline

/-- A fixed text. -/
theorem feeds_of_all {text : String} (h : text.toList.all (· ∉ '\n' :: tracedBare) = true) :
    Feeds text 0 := by
  have hchars : ∀ c ∈ text.toList, c ≠ '\n' ∧ c ∉ tracedBare := fun c hc => by
    simpa [not_or] using List.all_eq_true.1 h c hc
  exact feeds_of_not_mem (traces_of_forall fun c hc => traces_bare (by simp) (hchars c hc).2)
    fun hmem => (hchars _ hmem).1 rfl

/-- A line feed. -/
theorem feeds_feed : Feeds "\n" 1 :=
  ⟨_, traces_bare (c := '\n') (by simp) (by decide), by decide, by decide⟩

/-- **In a substitution there is none**, whatever is substituted. -/
theorem feeds_of_traces {t : List Char} {seen : List Located} (h : Traces [.parens] t seen)
    {text : String} (htext : text.toList = '$' :: '(' :: t ++ [')']) : Feeds text 0 := by
  refine feeds_of_forall (htext ▸ traces_substitution h) ?_
  simp only [List.cons_append, List.forall_mem_cons, List.forall_mem_append]
  refine ⟨by decide, by decide, fun x hx => ?_, by decide, nofun⟩
  have hmem : .parens ∈ x.1 := (h.inside x hx).subset (List.mem_singleton_self _)
  simp [isFreeFeed, hmem]

theorem IsSolid.feeds_substitution {t : String} {negated : Bool} {k : Nat}
    (h : IsSolid t negated k) : Feeds ("$(" ++ t ++ ")") 0 := by
  obtain ⟨seen, hseen, -⟩ := h [.parens] (by simp)
  exact feeds_of_traces hseen (by simp)

theorem IsSolid.feeds_arithmetic {t : String} {negated : Bool} {k : Nat}
    (h : IsSolid t negated k) : Feeds ("$((" ++ t ++ "))") 0 := by
  obtain ⟨seen, hseen, -⟩ := h [.parens, .parens] (by simp)
  exact feeds_of_traces (traces_parens hseen) (by simp)

/-! ## A line feed ends a list -/

/-- **The scan of a line and the trace of a text keep pace**: the same is open
in both, and they agree on a dollar wherever a parenthesis needs one. -/
structure KeepsPace (x : Context) (s : Spot) : Prop where
  /-- The same is open. -/
  frames : x.frames = s.frames
  /-- A line has no escapes. -/
  cue : s.cue ≠ .backslash
  /-- A dollar is remembered where it matters. -/
  dollar : s.frames.head? ≠ some .parens → (x.mark = .dollar ↔ s.cue = .dollar)

/-- What the scan does with a character that nothing is open around. -/
theorem bareGlyph_cases {mark : Mark} {c : Char} {g : Glyph} {y : Context}
    (h : bareGlyph mark c = some (g, y)) :
    c ∉ ['\\', '\x60', '\'', '#', ')', '\n']
      ∧ (c = '"' ∧ y = ⟨[.quotes], .plain⟩ ∨ c = '$' ∧ y = ⟨[], .dollar⟩
        ∨ c = '(' ∧ mark = .dollar ∧ y = ⟨[.parens], .plain⟩
        ∨ c ∉ ['"', '$', '('] ∧ y.frames = [] ∧ y.mark ≠ .dollar) := by
  unfold bareGlyph at h
  split at h
  · cases h
  · rename_i hrefused
    simp only [not_or] at hrefused
    refine ⟨by simp [hrefused], ?_⟩
    by_cases hquote : c = '"'
    · rw [if_pos hquote] at h
      cases h
      exact .inl ⟨hquote, rfl⟩
    by_cases hdollar : c = '$'
    · rw [if_neg hquote, if_pos hdollar] at h
      cases h
      exact .inr (.inl ⟨hdollar, rfl⟩)
    rw [if_neg hquote, if_neg hdollar] at h
    by_cases hopen : c = '('
    · rw [if_pos hopen] at h
      split at h
      · cases h
        exact .inr (.inr (.inl ⟨hopen, ‹_›, rfl⟩))
      · cases h
    · rw [if_neg hopen] at h
      refine .inr (.inr (.inr ⟨by simp [hquote, hdollar, hopen], ?_⟩))
      grind

/-- A character that the scan takes is taken by the trace, and is no line feed
unless something is open. -/
theorem KeepsPace.next {x y : Context} {s : Spot} {c : Char} {g : Glyph} (h : KeepsPace x s)
    (hstep : x.step c = some (g, y)) :
    ∃ t, s.next c = some t ∧ KeepsPace y t ∧ (c = '\n' → s.frames ≠ []) := by
  obtain ⟨frames, mark⟩ := x
  obtain ⟨frames', cue⟩ := s
  obtain ⟨rfl, hcue, hdollar⟩ : frames = frames' ∧ cue ≠ .backslash
    ∧ (frames'.head? ≠ some .parens → (mark = .dollar ↔ cue = .dollar)) :=
    ⟨h.frames, h.cue, h.dollar⟩
  -- the place behind the character has the frames of the scan
  refine ⟨⟨y.frames, if c = '$' then .dollar else .nothing⟩, ?_, ⟨rfl, ?_, ?_⟩, ?_⟩
  · rcases frames with _ | ⟨_ | _, frames⟩
    · obtain ⟨hplain, hcases⟩ := bareGlyph_cases hstep
      simp only [Spot.next, Spot.nextBare]
      grind
    · simp only [Context.step, quotedGlyph] at hstep
      simp only [Spot.next, Spot.nextQuoted]
      grind
    · simp only [Context.step, nestedGlyph] at hstep
      simp only [Spot.next, Spot.nextBare]
      grind
  · split <;> simp
  · rcases frames with _ | ⟨_ | _, frames⟩
    · obtain ⟨hplain, hcases⟩ := bareGlyph_cases hstep
      grind
    · simp only [Context.step, quotedGlyph] at hstep
      grind
    · simp only [Context.step, nestedGlyph] at hstep
      grind
  · rintro rfl hnil
    cases hnil
    cases hstep

theorem KeepsPace.trace {x y : Context} {s : Spot} {cs : List Char} {gs : List Glyph}
    (h : KeepsPace x s) (hscan : scan x cs = some (gs, y)) :
    ∃ seen t, trace s cs = some (seen, t) ∧ KeepsPace y t ∧ ∀ z ∈ seen, z.2 = '\n' → z.1 ≠ [] := by
  induction cs generalizing x s gs with
  | nil =>
    cases hscan
    exact ⟨[], s, rfl, h, nofun⟩
  | cons c cs ih =>
    rw [scan] at hscan
    obtain ⟨⟨g, w⟩, hstep, hrest⟩ := Option.bind_eq_some_iff.1 hscan
    obtain ⟨⟨gs', y'⟩, hcs, hpure⟩ := Option.bind_eq_some_iff.1 hrest
    cases hpure
    obtain ⟨t, hnext, hpace, hfeed⟩ := h.next hstep
    obtain ⟨seen, u, htrace, hpace', hfeeds⟩ := ih hpace hcs
    refine ⟨(s.frames, c) :: seen, u, ?_, hpace', List.forall_mem_cons.2 ⟨hfeed, hfeeds⟩⟩
    rw [Shell.trace, hnext]
    show (Shell.trace t cs).bind _ = _
    rw [htrace]
    rfl

/-- **A text that is read as a list has no line feed** with nothing open around
it. -/
theorem feed_of_read? {text : String} {list : CommandList} {seen : List Located}
    (hread : CommandList.read? text = some list) (hseen : located? text = some seen) :
    ∀ z ∈ seen, z.2 = '\n' → z.1 ≠ [] := by
  obtain ⟨gs, hglyphs, -⟩ := Option.bind_eq_some_iff.1 hread
  have hscan : scan ⟨[], .plain⟩ text.toList = some (gs, ⟨[], .plain⟩) := by
    unfold glyphs? at hglyphs
    split at hglyphs
    · rename_i gs' hscan
      cases hglyphs
      exact hscan
    · cases hglyphs
  have hpace : KeepsPace ⟨[], .plain⟩ ⟨[], .nothing⟩ := ⟨rfl, by decide, by simp⟩
  obtain ⟨seen', t, htrace, hpace', hfeeds⟩ := hpace.trace hscan
  obtain ⟨frames, cue⟩ := t
  obtain rfl : [] = frames := hpace'.frames
  rw [located?, htrace] at hseen
  cases hseen
  exact hfeeds

end Shell

/-! ## The lines of a condition -/

namespace Expr

/-- **The leaves of a condition.** -/
def leaves : Expr → List Expr
  | .logical _ left right _ => left.leaves ++ right.leaves
  | .not argument _ => argument.leaves
  | e => [e]

/-- **The line feeds in the command of a leaf**: a call of a method prints each
argument on a line of its own. -/
def feeds : Expr → Nat
  | .call (.member ..) arguments _ => arguments.length - 1
  | _ => 0

end Expr

/-- The line feeds that the text of a piece has outside of substitutions. -/
def Piece.feeds : Piece → Nat
  | .value _ | .argument _ | .arguments _ => 0
  | .prints _ es => es.length - 1
  | .command callee es span => (Expr.call callee es span).feeds
  | .test e => (e.leaves.map Expr.feeds).sum

theorem Shell.Feeds.bracedIf {t : String} {k : Nat} (h : Feeds t k) (needed : Bool) :
    Feeds (bracedIf needed t) k := by
  cases needed with
  | false => exact h
  | true =>
    have hopen : Feeds "\x7b " 0 := feeds_of_all (by decide)
    have hclose : Feeds "; \x7d" 0 := feeds_of_all (by decide)
    simpa [Emit.bracedIf, braced] using (hopen.append h).append hclose

theorem feeds_echo {v redirection : String} (h : Feeds v 0)
    (hredirection : redirection ∈ redirections) : Feeds ("echo " ++ v ++ redirection) 0 := by
  have hall : ∀ r ∈ redirections, r.toList.all (· ∉ '\n' :: tracedBare) = true := by decide
  have hecho : Feeds "echo " 0 := feeds_of_all (by decide)
  exact (hecho.append h).append (feeds_of_all (hall redirection hredirection))

theorem feeds_truthy {w : String} (h : Feeds w 0) : Feeds (truthy w) 0 := by
  have hempty : Feeds "[ -n " 0 := feeds_of_all (by decide)
  have hnext : Feeds " ] && [ " 0 := feeds_of_all (by decide)
  have hfalse : Feeds " != false ] && [ " 0 := feeds_of_all (by decide)
  have hzero : Feeds " != 0 ] && [ " 0 := feeds_of_all (by decide)
  have hnull : Feeds " != null ]" 0 := feeds_of_all (by decide)
  exact (((((((hempty.append h).append hnext).append h).append hfalse).append h).append
    hzero).append h).append hnull

theorem feeds_reference {name : String} (h : isName name = true) :
    Feeds ("\"$" ++ name ++ "\"") 0 :=
  (isSolid_reference (inert_of_isName h)).feeds (by simpa using (inert_of_isName h).line)

theorem feeds_memberText {object : Expr} {property : String} {span : Span} {text : String}
    (h : memberText object property span = .ok text) : Feeds text 0 := by
  refine (isSolid_memberText h).feeds ?_
  rcases memberText_cases h with rfl | rfl <;> decide

/-- **The line feeds of what is written for an expression.** -/
theorem Transcribes.feeds {target : Target} {p : Piece} {text : String}
    (h : Transcribes (isName · = true) target p text) : Feeds text p.feeds := by
  have hinert : ∀ name, isName name = true → Inert name := fun _ => inert_of_isName
  have hblank : Feeds " " 0 := feeds_of_all (by decide)
  have hopen : Feeds "[ " 0 := feeds_of_all (by decide)
  induction h with
  | reference h => exact feeds_reference h
  | quoted h =>
    refine (isSolid_literal h).feeds fun hmem => ?_
    exact h '\n' (by simpa using hmem) (by decide)
  | property h => exact feeds_memberText h
  | arithmetic ho hl hr ihl ihr =>
    rw [arithmetic_eq]
    exact ((hl.isSolid hinert).operands ho (hr.isSolid hinert)).feeds_arithmetic
  | boolean he h ih =>
    rw [booleanWord_eq]
    exact (h.isSolid hinert).branches.feeds_substitution
  | substitution h ih => exact (h.isSolid hinert).feeds_substitution
  | number h => exact (inert_of_isBare h).feeds
  | word he h ih => exact ih
  | last h ih => exact ih
  | more ha has iha ihas => exact (iha.append hblank).append ihas
  | name h => exact (hinert _ h).feeds
  | call h has ih => exact ((hinert _ h).feeds.append hblank).append ih
  | echo h =>
    have hall : ∀ r ∈ redirections, ("echo" ++ r).toList.all (· ∉ '\n' :: tracedBare) = true := by
      decide
    exact feeds_of_all (hall _ (mem_redirections h))
  | prints h ht ih => exact ih
  | line hredirection hv ih => exact feeds_echo ih hredirection
  | lines hredirection hv ht ihv iht =>
    have hlines := ((feeds_echo ihv hredirection).append feeds_feed).append iht
    simpa [Piece.feeds, Nat.add_comm] using hlines
  | @comparison op left right span l o r ho hl hr ihl ihr =>
    have hall : ∀ o ∈ testOperators, o.toList.all (· ∉ '\n' :: tracedBare) = true := by decide
    have hoperator : Feeds o 0 := feeds_of_all (hall o (mem_testOperators ho))
    have hclose : Feeds " ]" 0 := feeds_of_all (by decide)
    exact (((((hopen.append ihl).append hblank).append hoperator).append hblank).append ihr).append
      hclose
  | nonzero hop h ih =>
    have hclose : Feeds " -ne 0 ]" 0 := feeds_of_all (by decide)
    exact (hopen.append ih).append hclose
  | referenceTest h => exact feeds_truthy (feeds_reference h)
  | propertyTest h => exact feeds_truthy (feeds_memberText h)
  | @constant value span =>
    show Feeds (if value.truth then "true" else "false") 0
    cases value.truth <;> exact feeds_of_all (by decide)
  | status h ih => exact ih
  | @logical op left right span l r hl hr ihl ihr =>
    have htoken : Feeds op.token 0 := feeds_of_all (by cases op <;> decide)
    have htest := ((((ihl.bracedIf (left.needsBraces op)).append hblank).append htoken).append
      hblank).append (ihr.bracedIf (right.needsBraces op))
    simpa [Piece.feeds, Expr.leaves] using htest
  | @negated e span t h ih =>
    have hbang : Feeds "! " 0 := feeds_of_all (by decide)
    have htest := hbang.append (ih.bracedIf (e.needsBraces none))
    simpa [Piece.feeds, Expr.leaves] using htest

/-! ## The list of a condition -/

/-- **How the text of a piece is taken**: a value as one word, and a command or
a test without free line feeds as a command or a list that runs what evaluating
the expression visits. Any of them may stand inside of a substitution. -/
def Piece.Reads (target : Target) (text : String) : Piece → Prop
  | .value _ | .argument _ => IsWord text
  | .arguments _ => ∃ w ws, (∀ v ∈ w :: ws, IsWord v) ∧ joinWith " " (w :: ws) = text
  | .prints redirection es =>
    IsNested text ∧ (es.length - 1 = 0 → ∃ v, IsWord v ∧ text = "echo " ++ v ++ redirection)
  | .command callee es span =>
    IsNested text ∧ ((Expr.call callee es span).feeds = 0 →
      ∃ words, IsCommand words ∧ joinWith " " words = text)
  | .test e =>
    IsNested text ∧ ((e.leaves.map Expr.feeds).sum = 0 → ∃ l, e.Plan target e.joint? text l)

theorem isNested_bracedIf {t : String} (h : IsNested t) (needed : Bool) :
    IsNested (bracedIf needed t) := by
  cases needed with
  | false => exact h
  | true =>
    exact ((isNested_of_all (by decide)).append h).append (isNested_of_all (by decide))

theorem isNested_echo {v redirection : String} (h : IsWord v)
    (hredirection : redirection ∈ redirections) : IsNested ("echo " ++ v ++ redirection) := by
  have hall : ∀ r ∈ redirections, r.toList.all (· ∉ specialNested) = true := by decide
  exact ((isNested_of_all (by decide)).append h.nested).append
    (isNested_of_all (hall redirection hredirection))

/-- A leaf that is one command. -/
theorem Piece.reads_test {target : Target} {e : Expr} {text : String} {words : List String}
    (hwords : IsCommand words) (hjoin : joinWith " " words = text)
    (hcondition : e.condition target = .ok text) (he : e.isTruthyChain = false)
    (hjoint : e.joint? = none)
    (hleaf : ∀ {m : Type → Type} [Monad m] (leaf : Expr → m Bool), e.visit leaf = leaf e) :
    (Piece.test e).Reads target text := by
  refine ⟨hjoin ▸ isNested_words hwords.words, fun _ => ?_⟩
  rw [hjoint]
  exact ⟨_, Expr.plan_command hwords hjoin (Expr.tests_of_condition he hcondition) hleaf⟩

/-- A condition that has a list in any case. -/
theorem Piece.reads_of_written {target : Target} {e : Expr} {text : String}
    (hwritten : e.Written target) (hcondition : e.condition target = .ok text) :
    (Piece.test e).Reads target text := by
  obtain ⟨l, hl⟩ := hwritten.2 text hcondition
  exact ⟨hl.isNested, fun _ => ⟨l, hl⟩⟩

/-- **What is written for an expression is taken as it should**, up to free line
feeds. -/
theorem Transcribes.reads {target : Target} {p : Piece} {text : String}
    (h : Transcribes (isName · = true) target p text) : p.Reads target text := by
  have hblank : IsNested " " := isNested_of_all (by decide)
  induction h with
  | reference h => exact isWord_variable h
  | quoted h => exact isWord_literal (literalText_eq .nowhere h)
  | property h => exact isWord_memberText h
  | @arithmetic op left right span l o r ho hl hr ihl ihr =>
    have htext : Emit.arithmetic target op span (.ok l) (.ok r)
        = .ok ("$(( " ++ l ++ " " ++ o ++ " " ++ r ++ " ))") := by
      rw [Emit.arithmetic, ho]
      rfl
    refine isWord_arithmetic htext (fun _ heq => ?_) fun _ heq => ?_
    · cases heq
      exact ihl
    · cases heq
      exact ihr
  | boolean he h ih => exact isWord_booleanWord ih.1
  | substitution h ih => exact isWord_substitution ih.1
  | number h => exact isWord_of_isBare h
  | word he h ih => exact ih
  | @last e a h ih =>
    have hword : IsWord a := ih
    exact ⟨a, [], by simpa using hword, rfl⟩
  | @more e f es a as ha has iha ihas =>
    obtain ⟨w, ws, hwords, rfl⟩ := ihas
    exact ⟨a, w :: ws, List.forall_mem_cons.2 ⟨iha, hwords⟩, rfl⟩
  | @name name s span h =>
    have hword := isWord_of_isName h
    exact ⟨hword.nested, fun _ => ⟨[name],
      ⟨⟨name, [], rfl, not_mem_reservedWords_of_isName h⟩, by simpa using hword⟩, rfl⟩⟩
  | @call name as s span e es h has ih =>
    obtain ⟨w, ws, hwords, rfl⟩ := ih
    have hcommand : IsCommand (name :: w :: ws) :=
      ⟨⟨name, w :: ws, rfl, not_mem_reservedWords_of_isName h⟩,
        List.forall_mem_cons.2 ⟨isWord_of_isName h, hwords⟩⟩
    exact ⟨isNested_words hcommand.words, fun _ => ⟨_, hcommand, rfl⟩⟩
  | echo h =>
    obtain ⟨words, hwords, hjoin⟩ := isCommand_echo [] h (List.forall_mem_nil _)
    exact ⟨hjoin ▸ isNested_words hwords.words, fun _ => ⟨words, hwords, hjoin⟩⟩
  | @prints object property redirection t s span e es h ht ih =>
    refine ⟨ih.1, fun hfeeds => ?_⟩
    obtain ⟨v, hv, rfl⟩ := ih.2 hfeeds
    exact isCommand_echo [v] h (by simpa using hv)
  | @line redirection v e hredirection hv ih =>
    exact ⟨isNested_echo ih hredirection, fun _ => ⟨v, ih, rfl⟩⟩
  | @lines redirection v t e f es hredirection hv ht ihv iht =>
    refine ⟨((isNested_echo ihv hredirection).append (isNested_of_all (by decide))).append iht.1,
      fun hlength => ?_⟩
    -- two values or more have a line feed
    simp at hlength
  | @comparison op left right span l o r ho hl hr ihl ihr =>
    have htext : Emit.comparison op span (.ok l) (.ok r)
        = .ok ("[ " ++ l ++ " " ++ o ++ " " ++ r ++ " ]") := by
      rw [Emit.comparison, ho]
      rfl
    obtain ⟨words, hwords, hjoin⟩ := isCommand_comparison htext
      (fun _ heq => by cases heq; exact ihl) fun _ heq => by cases heq; exact ihr
    have hcondition := (Transcribes.comparison ho hl hr).text_eq
    exact Piece.reads_test hwords hjoin hcondition rfl rfl fun _ => rfl
  | @nonzero op left right span v hop h ih =>
    have hwords : IsCommand ("[" :: [v, "-ne", "0"] ++ ["]"]) := by
      refine isCommand_test [v, "-ne", "0"] ?_
      rw [List.forall_mem_cons, List.forall_mem_cons, List.forall_mem_singleton]
      exact ⟨ih, isWord_of_isOrdinary (by decide), isWord_of_isOrdinary (by decide)⟩
    refine Piece.reads_test hwords ?_ (Transcribes.nonzero hop h).text_eq rfl rfl fun _ => rfl
    rw [← String.toList_inj]
    simp [joinWith]
  | referenceTest h => exact Piece.reads_of_written (Expr.written_identifier h) rfl
  | propertyTest h =>
    refine Piece.reads_of_written Expr.written_member ?_
    rw [Expr.condition, h]
    rfl
  | constant => exact Piece.reads_of_written Expr.written_literal rfl
  | @status callee arguments span t h ih =>
    refine ⟨ih.1, fun hfeeds => ?_⟩
    obtain ⟨words, hwords, hjoin⟩ := ih.2 (by simpa [Expr.leaves] using hfeeds)
    have hcondition := (Transcribes.status h).text_eq
    exact (Piece.reads_test hwords hjoin hcondition rfl rfl fun _ => rfl).2 hfeeds
  | @logical op left right span l r hl hr ihl ihr =>
    have htoken : IsNested op.token := isNested_of_all (by cases op <;> decide)
    refine ⟨((((isNested_bracedIf ihl.1 _).append hblank).append htoken).append hblank).append
      (isNested_bracedIf ihr.1 _), fun hfeeds => ?_⟩
    -- the line feeds of the operands add up, so that neither has one
    rw [Expr.leaves, List.map_append, List.sum_append, Nat.add_eq_zero_iff] at hfeeds
    obtain ⟨list, hplan⟩ := ihl.2 hfeeds.1
    obtain ⟨list', hplan'⟩ := ihr.2 hfeeds.2
    obtain ⟨operand, hoperand⟩ := hplan.operand (some op)
    obtain ⟨operand', hoperand'⟩ := hplan'.operand (some op)
    exact ⟨_, hoperand.logical hoperand'⟩
  | @negated e span t h ih =>
    refine ⟨(isNested_of_all (by decide)).append (isNested_bracedIf ih.1 _), fun hfeeds => ?_⟩
    obtain ⟨list, hplan⟩ := ih.2 hfeeds
    obtain ⟨operand, hoperand⟩ := hplan.operand none
    exact hoperand.not

namespace Expr

/-- **The line feeds of a condition.** Outside of substitutions, a condition has
a line feed for each argument after the first one of a call that prints and is
one of its leaves. If there is none it is one list of commands, and runs as the
expression is evaluated: an operand runs under control of its operator and a
negation is one of the whole operand. With a line feed it is no list. -/
theorem line_feeds_of_condition {target : Target} {e : Expr} {text : String}
    (hnames : ∀ name ∈ e.names, isName name = true) (h : e.condition target = .ok text) :
    ∃ seen, located? text = some seen
      ∧ lineFeeds seen = (e.leaves.map feeds).sum
      ∧ (lineFeeds seen = 0 ↔ ∃ list, CommandList.read? text = some list)
      ∧ ∀ list, CommandList.read? text = some list →
        ∀ {m : Type → Type} [Monad m] [LawfulMonad m] (exec : String → m Bool),
          list.run exec = e.visit fun leaf => (leaf.tests target).allM exec := by
  have htranscribes : Transcribes (isName · = true) target (.test e) text :=
    transcribes_condition hnames h
  obtain ⟨seen, htraces, hcount, hbare⟩ := htranscribes.feeds
  have hseen := located?_of_traces htraces
  have hcount : lineFeeds seen = (e.leaves.map feeds).sum := hcount
  have hplan : lineFeeds seen = 0 →
      ∃ l, e.Plan target e.joint? text l ∧ CommandList.read? text = some l := by
    intro hzero
    obtain ⟨l, hl⟩ := htranscribes.reads.2 (hcount ▸ hzero)
    refine ⟨l, hl, ?_⟩
    rw [← hl.print_eq]
    exact l.read?_print hl.wellFormed
  have hnone : ∀ list, CommandList.read? text = some list → lineFeeds seen = 0 := by
    intro list hread
    rw [lineFeeds, List.countP_eq_zero]
    intro x hx hfeed
    have hchar : x.2 = '\n' := by
      simp only [isFreeFeed, Bool.and_eq_true, decide_eq_true_eq] at hfeed
      exact hfeed.1
    exact feed_of_read? hread hseen x hx hchar (hbare x hx hfeed)
  refine ⟨seen, hseen, hcount, ⟨fun hzero => ?_, fun ⟨list, hread⟩ => hnone list hread⟩, ?_⟩
  · obtain ⟨l, -, hread⟩ := hplan hzero
    exact ⟨l, hread⟩
  · intro list hread m _ _ exec
    obtain ⟨l, hl, hread'⟩ := hplan (hnone list hread)
    cases hread.symm.trans hread'
    exact hl.run_eq exec

/-- A negated disjunction, in which a value is printed that a call has printed on
two lines. -/
def nestedPrints : Expr :=
  .not (.logical .or (.call (.identifier "ready" .nowhere) [] .nowhere)
    (.call (.member (.identifier "console" .nowhere) "error" .nowhere)
      [.call (.member (.identifier "console" .nowhere) "log" .nowhere)
        [.identifier "x" .nowhere, .literal (.string "b") .nowhere] .nowhere] .nowhere)
    .nowhere) .nowhere

/-- The text of `nestedPrints` as a condition. -/
def nestedPrintsText : String :=
  "! \x7b ready || echo $(echo \"$x\"\necho \"b\") >&2; \x7d"

theorem nestedPrints_line_feeds :
    (∀ name ∈ nestedPrints.names, isName name = true)
      ∧ nestedPrints.condition .posix = .ok nestedPrintsText
      ∧ (nestedPrints.leaves.map feeds).sum = 0
      ∧ ∃ seen, located? nestedPrintsText = some seen
        ∧ lineFeeds seen = (nestedPrints.leaves.map feeds).sum
        ∧ (lineFeeds seen = 0 ↔ ∃ list, CommandList.read? nestedPrintsText = some list)
        ∧ ∀ list, CommandList.read? nestedPrintsText = some list →
          ∀ {m : Type → Type} [Monad m] [LawfulMonad m] (exec : String → m Bool),
            list.run exec = nestedPrints.visit fun leaf => (leaf.tests .posix).allM exec :=
  have hnames : ∀ name ∈ nestedPrints.names, isName name = true := by decide
  have htext : nestedPrints.condition .posix = .ok nestedPrintsText := by rfl
  ⟨hnames, htext, rfl, line_feeds_of_condition hnames htext⟩

/-- A call that prints two values, behind an operator. -/
def guardedPrints : Expr :=
  .logical .and (.call (.identifier "ready" .nowhere) [] .nowhere)
    (.call (.member (.identifier "console" .nowhere) "log" .nowhere)
      [.literal (.string "a") .nowhere, .literal (.string "b") .nowhere] .nowhere) .nowhere

/-- **The second value is printed in any case.** It is on a line of its own, and
so the list before it does not decide about it. -/
theorem guardedPrints_escape : ∃ first second seen,
    guardedPrints.condition .bash = .ok (first ++ "\n" ++ second)
      ∧ located? (first ++ "\n" ++ second) = some seen ∧ lineFeeds seen = 1
      ∧ (CommandList.read? (first ++ "\n" ++ second)).isNone = true
      ∧ (∃ list, CommandList.read? first = some list
        ∧ (list.run (logging fun _ => false)).run [] = (false, ["ready"]))
      ∧ (∃ list, CommandList.read? second = some list
        ∧ (list.run (logging fun _ => false)).run [] = (false, ["echo \"b\""]))
      ∧ ((guardedPrints.visit fun leaf => (leaf.tests .bash).allM (logging fun _ => false)).run [])
        = (false, ["ready"]) := by
  exact ⟨"ready && echo \"a\"", "echo \"b\"", _, rfl, rfl, by decide, rfl, ⟨_, rfl, rfl⟩,
    ⟨_, rfl, rfl⟩, rfl⟩

end Expr

end ScriptToShell
