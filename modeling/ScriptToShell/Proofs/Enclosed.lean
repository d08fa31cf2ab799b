import ScriptToShell.Proofs.Phrase
import ScriptToShell.Proofs.Spelling

/-!
# What stands open around a character

Two questions about generated text ask where a character stands: whether a line
feed is inside a substitution, and whether an exclamation mark is between
quotes. `trace` answers both at once. It walks through a text and gives each
character together with the quotes and substitutions that are open around it,
the innermost first.

In contrast to the scan of a line it does not ask what a character means there,
and so it takes line feeds, and names in which there is a dollar or an escape.
What it has no use for – a backquote, and outside of quotes a single quote, the
sign of a comment and parentheses of other kinds – it refuses.

A text is **traced** below some frames if it leaves them as they are and never
gets below them (`Traces`). This goes through all ways of putting text
together.
-/

namespace ScriptToShell.Shell

/-! ## The trace of a text -/

/-- What the character before says of the next one. -/
inductive Cue where
  | nothing
  /-- A parenthesis opens a substitution. -/
  | dollar
  /-- The next character stands for itself. -/
  | backslash
deriving DecidableEq, Repr, Inhabited

/-- **A place in a text**: what is open there, the innermost first, and what
the character before says. -/
structure Spot where
  /-- What is open. -/
  frames : List Frame
  /-- What the character before says. -/
  cue : Cue := .nothing
deriving DecidableEq, Repr, Inhabited

/-- The place behind a character between double quotes. -/
def Spot.nextQuoted (outer : List Frame) (cue : Cue) (c : Char) : Spot :=
  if c = '"' then ⟨outer, .nothing⟩
  else if c = '$' then ⟨.quotes :: outer, .dollar⟩
  else if c = '(' ∧ cue = .dollar then ⟨.parens :: .quotes :: outer, .nothing⟩
  else ⟨.quotes :: outer, .nothing⟩

/-- The place behind a character outside of quotes. -/
def Spot.nextBare (frames : List Frame) (cue : Cue) (c : Char) : Option Spot :=
  if c = '\'' ∨ c = '#' then none
  else if c = '"' then some ⟨.quotes :: frames, .nothing⟩
  else if c = '$' then some ⟨frames, .dollar⟩
  else if c = '(' then
    if cue = .dollar ∨ frames ≠ [] then some ⟨.parens :: frames, .nothing⟩ else none
  else if c = ')' then if frames = [] then none else some ⟨frames.tail, .nothing⟩
  else some ⟨frames, .nothing⟩

/-- **The place behind a character**; none if the character is refused. -/
def Spot.next (s : Spot) (c : Char) : Option Spot :=
  if s.cue = .backslash then some ⟨s.frames, .nothing⟩
  else if c = '\\' then some ⟨s.frames, .backslash⟩
  else if c = '\x60' then none
  else match s.frames with
    | .quotes :: outer => some (Spot.nextQuoted outer s.cue c)
    | frames => Spot.nextBare frames s.cue c

/-- A character and what is open around it. -/
abbrev Located := List Frame × Char

/-- **The trace of a text** from a place, and the place behind it. -/
def trace (s : Spot) : List Char → Option (List Located × Spot)
  | [] => some ([], s)
  | c :: cs => do
    let t ← s.next c
    let (seen, u) ← trace t cs
    return ((s.frames, c) :: seen, u)

/-- **The characters of a whole text**, in which everything is closed again,
with what is open around each. -/
def located? (text : String) : Option (List Located) :=
  match trace ⟨[], .nothing⟩ text.toList with
  | some (seen, ⟨[], _⟩) => some seen
  | _ => none

theorem trace_append {s t u : Spot} {cs ds : List Char} {xs ys : List Located}
    (hc : trace s cs = some (xs, t)) (hd : trace t ds = some (ys, u)) :
    trace s (cs ++ ds) = some (xs ++ ys, u) := by
  induction cs generalizing s xs with
  | nil =>
    cases hc
    exact hd
  | cons c cs ih =>
    obtain ⟨v, hnext, hrest⟩ := Option.bind_eq_some_iff.1 hc
    obtain ⟨⟨xs', t'⟩, hcs, hpure⟩ := Option.bind_eq_some_iff.1 hrest
    cases hpure
    rw [List.cons_append, trace, hnext]
    show (trace v (cs ++ ds)).bind _ = _
    rw [ih hcs]
    rfl

/-! ## Texts that are traced -/

/-- **A text that is traced below some frames**: it leaves them as they are,
whether or not there is a dollar before it, and everything in it stands inside
them. -/
structure Traces (frames : List Frame) (text : List Char) (seen : List Located) : Prop where
  /-- The frames are the same behind the text. -/
  trace_eq : ∀ cue, cue ≠ .backslash →
    ∃ cue', cue' ≠ .backslash ∧ trace ⟨frames, cue⟩ text = some (seen, ⟨frames, cue'⟩)
  /-- The frames are open around every character. -/
  inside : ∀ x ∈ seen, frames <:+ x.1

theorem traces_nil (frames : List Frame) : Traces frames [] [] :=
  ⟨fun cue hcue => ⟨cue, hcue, rfl⟩, nofun⟩

theorem Traces.append {frames : List Frame} {text rest : List Char} {xs ys : List Located}
    (h : Traces frames text xs) (hrest : Traces frames rest ys) :
    Traces frames (text ++ rest) (xs ++ ys) := by
  refine ⟨fun cue hcue => ?_, List.forall_mem_append.2 ⟨h.inside, hrest.inside⟩⟩
  obtain ⟨cue', hcue', htrace⟩ := h.trace_eq cue hcue
  obtain ⟨cue'', hcue'', htrace'⟩ := hrest.trace_eq cue' hcue'
  exact ⟨cue'', hcue'', trace_append htrace htrace'⟩

/-- The characters of a text that are all in the same place. -/
def allIn (frames : List Frame) (text : List Char) : List Located := text.map (frames, ·)

/-- A text is traced if each of its characters is. -/
theorem traces_of_forall {frames : List Frame} {text : List Char}
    (h : ∀ c ∈ text, Traces frames [c] [(frames, c)]) : Traces frames text (allIn frames text) := by
  induction text with
  | nil => exact traces_nil frames
  | cons c text ih =>
    rw [List.forall_mem_cons] at h
    exact h.1.append (ih h.2)

/-- The characters that mean something between double quotes. -/
def tracedQuoted : List Char := ['\\', '\x60', '"', '(']

/-- The characters that mean something outside of quotes. -/
def tracedBare : List Char := ['\\', '\x60', '\'', '#', '"', '(', ')']

theorem traces_quoted {outer : List Frame} {c : Char} (hc : c ∉ tracedQuoted) :
    Traces (.quotes :: outer) [c] [(.quotes :: outer, c)] := by
  simp only [tracedQuoted, List.mem_cons, List.not_mem_nil, or_false, not_or] at hc
  refine ⟨fun cue hcue => ?_, by simp⟩
  by_cases hdollar : c = '$'
  · exact ⟨.dollar, by decide, by simp [trace, Spot.next, Spot.nextQuoted, hcue, hdollar]⟩
  · exact ⟨.nothing, by decide, by simp [trace, Spot.next, Spot.nextQuoted, hcue, hc, hdollar]⟩

theorem next_bare {frames : List Frame} {cue : Cue} {c : Char}
    (hframes : frames.head? ≠ some .quotes) (hcue : cue ≠ .backslash) (hslash : c ≠ '\\')
    (hquote : c ≠ '\x60') : Spot.next ⟨frames, cue⟩ c = Spot.nextBare frames cue c := by
  rcases frames with _ | ⟨_ | _, outer⟩
  · simp [Spot.next, hcue, hslash, hquote]
  · exact absurd rfl hframes
  · simp [Spot.next, hcue, hslash, hquote]

theorem traces_bare {frames : List Frame} {c : Char} (hframes : frames.head? ≠ some .quotes)
    (hc : c ∉ tracedBare) : Traces frames [c] [(frames, c)] := by
  simp only [tracedBare, List.mem_cons, List.not_mem_nil, or_false, not_or] at hc
  refine ⟨fun cue hcue => ?_, by simp⟩
  have hnext := next_bare hframes hcue hc.1 hc.2.1
  by_cases hdollar : c = '$'
  · subst hdollar
    exact ⟨.dollar, by decide, by simp [trace, hnext, Spot.nextBare]⟩
  · exact ⟨.nothing, by decide, by simp [trace, hnext, Spot.nextBare, hc, hdollar]⟩

/-- **Quotes around a text** that stays between them. -/
theorem traces_quotes {frames : List Frame} {text : List Char} {seen : List Located} {cue : Cue}
    (hframes : frames.head? ≠ some .quotes) (hcue : cue ≠ .backslash)
    (h : trace ⟨.quotes :: frames, .nothing⟩ text = some (seen, ⟨.quotes :: frames, cue⟩))
    (hinside : ∀ x ∈ seen, .quotes :: frames <:+ x.1) :
    Traces frames ('"' :: text ++ ['"'])
      ((frames, '"') :: seen ++ [(.quotes :: frames, '"')]) := by
  refine ⟨fun before hbefore => ⟨.nothing, by decide, ?_⟩, ?_⟩
  · have hopen : trace ⟨frames, before⟩ ['"']
        = some ([(frames, '"')], ⟨.quotes :: frames, .nothing⟩) := by
      rw [trace, next_bare hframes hbefore (by decide) (by decide)]
      rfl
    have hclose : trace ⟨.quotes :: frames, cue⟩ ['"']
        = some ([(.quotes :: frames, '"')], ⟨frames, .nothing⟩) := by
      simp [trace, Spot.next, Spot.nextQuoted, hcue]
    exact trace_append (trace_append hopen h) hclose
  · simp only [List.cons_append, List.forall_mem_cons, List.forall_mem_append,
      List.not_mem_nil, false_implies, implies_true, and_true]
    exact ⟨List.suffix_rfl, fun x hx => (List.suffix_cons _ _).trans (hinside x hx),
      List.suffix_cons _ _⟩

theorem Traces.quotes {frames : List Frame} {text : List Char} {seen : List Located}
    (h : Traces (.quotes :: frames) text seen) (hframes : frames.head? ≠ some .quotes) :
    Traces frames ('"' :: text ++ ['"'])
      ((frames, '"') :: seen ++ [(.quotes :: frames, '"')]) := by
  obtain ⟨cue, hcue, htrace⟩ := h.trace_eq .nothing (by decide)
  exact traces_quotes hframes hcue htrace h.inside

/-- **The text of a literal between quotes.** A parenthesis in it opens nothing,
since there is no dollar. -/
theorem traces_literal {frames : List Frame} (hframes : frames.head? ≠ some .quotes)
    {text : List Char} (h : ∀ c ∈ text, c ∉ activeCharacters) :
    Traces frames ('"' :: text ++ ['"'])
      ((frames, '"') :: allIn (.quotes :: frames) text ++ [(.quotes :: frames, '"')]) := by
  have hcue : Cue.nothing ≠ .backslash := by decide
  refine traces_quotes hframes hcue ?_ (by simp [allIn])
  induction text with
  | nil => rfl
  | cons c text ih =>
    rw [List.forall_mem_cons] at h
    have hc := h.1
    simp only [activeCharacters, List.mem_cons, List.not_mem_nil, or_false, not_or] at hc
    have hfirst : trace ⟨.quotes :: frames, .nothing⟩ [c]
        = some ([(.quotes :: frames, c)], ⟨.quotes :: frames, .nothing⟩) := by
      simp [trace, Spot.next, Spot.nextQuoted, hc]
    exact trace_append hfirst (ih h.2)

/-- A closing parenthesis ends what a parenthesis has opened. -/
theorem trace_close {frames : List Frame} {cue : Cue} (hcue : cue ≠ .backslash) :
    trace ⟨.parens :: frames, cue⟩ [')']
      = some ([(.parens :: frames, ')')], ⟨frames, .nothing⟩) := by
  simp [trace, Spot.next, Spot.nextBare, hcue]

/-- **A substitution** of a text that is traced inside it. -/
theorem traces_substitution {frames : List Frame} {text : List Char} {seen : List Located}
    (h : Traces (.parens :: frames) text seen) :
    Traces frames ('$' :: '(' :: text ++ [')'])
      ((frames, '$') :: (frames, '(') :: seen ++ [(.parens :: frames, ')')]) := by
  refine ⟨fun cue hcue => ?_, ?_⟩
  · obtain ⟨cue', hcue', htrace⟩ := h.trace_eq .nothing (by decide)
    have hopen : trace ⟨frames, cue⟩ ['$', '(']
        = some ([(frames, '$'), (frames, '(')], ⟨.parens :: frames, .nothing⟩) := by
      rcases frames with _ | ⟨_ | _, frames⟩ <;>
        simp [trace, Spot.next, Spot.nextBare, Spot.nextQuoted, hcue]
    exact ⟨.nothing, by decide, trace_append (trace_append hopen htrace) (trace_close hcue')⟩
  · simp only [List.cons_append, List.forall_mem_cons, List.forall_mem_append,
      List.not_mem_nil, false_implies, implies_true, and_true]
    exact ⟨List.suffix_rfl, List.suffix_rfl,
      fun x hx => (List.suffix_cons _ _).trans (h.inside x hx), List.suffix_cons _ _⟩

/-- Parentheses inside a substitution. -/
theorem traces_parens {frames : List Frame} {text : List Char} {seen : List Located}
    (h : Traces (.parens :: .parens :: frames) text seen) :
    Traces (.parens :: frames) ('(' :: text ++ [')'])
      ((.parens :: frames, '(') :: seen ++ [(.parens :: .parens :: frames, ')')]) := by
  refine ⟨fun cue hcue => ?_, ?_⟩
  · obtain ⟨cue', hcue', htrace⟩ := h.trace_eq .nothing (by decide)
    have hopen : trace ⟨.parens :: frames, cue⟩ ['(']
        = some ([(.parens :: frames, '(')], ⟨.parens :: .parens :: frames, .nothing⟩) := by
      simp [trace, Spot.next, Spot.nextBare, hcue]
    exact ⟨.nothing, by decide, trace_append (trace_append hopen htrace) (trace_close hcue')⟩
  · simp only [List.cons_append, List.forall_mem_cons, List.forall_mem_append,
      List.not_mem_nil, false_implies, implies_true, and_true]
    exact ⟨List.suffix_rfl, fun x hx => (List.suffix_cons _ _).trans (h.inside x hx),
      List.suffix_cons _ _⟩

/-- The trace of a text has the characters of the text. -/
theorem map_snd_of_trace {s t : Spot} {text : List Char} {seen : List Located}
    (h : trace s text = some (seen, t)) : seen.map (·.2) = text := by
  induction text generalizing s seen with
  | nil =>
    cases h
    rfl
  | cons c text ih =>
    obtain ⟨u, -, hrest⟩ := Option.bind_eq_some_iff.1 h
    obtain ⟨⟨seen', t'⟩, htext, hpure⟩ := Option.bind_eq_some_iff.1 hrest
    cases hpure
    exact congrArg (c :: ·) (ih htext)

theorem Traces.map_snd {frames : List Frame} {text : List Char} {seen : List Located}
    (h : Traces frames text seen) : seen.map (·.2) = text := by
  obtain ⟨cue, -, htrace⟩ := h.trace_eq .nothing (by decide)
  exact map_snd_of_trace htrace

/-- A text that is traced with nothing around it is traced as a whole. -/
theorem located?_of_traces {text : String} {seen : List Located} (h : Traces [] text.toList seen) :
    located? text = some seen := by
  obtain ⟨cue, -, htrace⟩ := h.trace_eq .nothing (by decide)
  rw [located?, htrace]

/-! ## Names and numbers -/

/-- **A text that stays where it stands**, be it between quotes or not: each of
its characters is in the same place, and none is a line feed or an exclamation
mark. -/
structure Inert (text : String) : Prop where
  /-- The text opens and closes nothing. -/
  traces : ∀ frames, Traces frames text.toList (allIn frames text.toList)
  /-- There is more in it than blanks. -/
  visible : ∃ c ∈ text.toList, c ≠ ' ' ∧ c ≠ '\t'
  /-- There is no line feed in it. -/
  line : '\n' ∉ text.toList
  /-- There is no exclamation mark in it. -/
  calm : '!' ∉ text.toList

theorem traces_char {frames : List Frame} {c : Char} (hc : c ∉ tracedBare) :
    Traces frames [c] [(frames, c)] := by
  by_cases hframes : frames.head? = some .quotes
  · obtain ⟨outer, rfl⟩ := List.head?_eq_some_iff.1 hframes
    exact traces_quoted fun hmem => hc ((by decide : tracedQuoted ⊆ tracedBare) hmem)
  · exact traces_bare hframes hc

/-- The characters that an inert text has, if at all, in an escape. -/
def restless : List Char := '\n' :: '!' :: ' ' :: '\t' :: tracedBare

theorem inert_of_forall {text : String} (hnonempty : text.toList ≠ [])
    (h : ∀ c ∈ text.toList, c ∉ restless) : Inert text := by
  simp only [restless, List.mem_cons, not_or] at h
  obtain ⟨c, hc⟩ := List.exists_mem_of_ne_nil _ hnonempty
  exact ⟨fun frames => traces_of_forall fun c hc => traces_char (h c hc).2.2.2.2,
    ⟨c, hc, (h c hc).2.2.1, (h c hc).2.2.2.1⟩,
    fun hmem => (h _ hmem).1 rfl, fun hmem => (h _ hmem).2.1 rfl⟩

/-- A name for a shell. -/
theorem inert_of_isName {name : String} (h : isName name = true) : Inert name := by
  obtain ⟨hnonempty, hchars⟩ := isNameChar_of_isName h
  have hnone : restless.all (!isNameChar ·) = true := by decide
  refine inert_of_forall hnonempty fun c hc hmem => ?_
  have hfalse := List.all_eq_true.1 hnone c hmem
  rw [hchars c hc] at hfalse
  cases hfalse

/-- A number that stands unquoted. -/
theorem inert_of_isBare {n : String} (h : Numeral.isBare n = true) : Inert n := by
  have hnone : restless.all (¬ Numeral.IsBareChar ·) = true := by decide
  have hnonempty : n.toList ≠ [] := by
    intro hnil
    rw [Numeral.isBare, hnil] at h
    revert h
    decide
  exact inert_of_forall hnonempty fun c hc hmem =>
    of_decide_eq_true (List.all_eq_true.1 hnone c hmem) (Numeral.isBareChar_of_isBare h c hc)

/-- An escape stands for its characters, wherever it stands. -/
theorem traces_escape (frames : List Frame) :
    Traces frames ['\\', 'u'] (allIn frames ['\\', 'u']) := by
  refine ⟨fun cue hcue => ⟨.nothing, by decide, ?_⟩, by simp [allIn]⟩
  simp [trace, Spot.next, hcue, allIn]

end ScriptToShell.Shell

namespace ScriptToShell

open Scan Shell

/-- **A name of the source language**, be it one for a shell or not. -/
def IsIdentifier (name : String) : Prop := name? name.toList = some name.toList.length

instance (name : String) : Decidable (IsIdentifier name) :=
  inferInstanceAs (Decidable (name? name.toList = some name.toList.length))

theorem not_mem_tracedBare_of_isNameChar {c : Char} (h : Scan.isNameChar c) : c ∉ tracedBare := by
  have hnone : tracedBare.all (!Scan.isNameChar ·) = true := by decide
  intro hmem
  have hfalse := List.all_eq_true.1 hnone c hmem
  rw [h] at hfalse
  cases hfalse

theorem traces_nameChar? {plain : Char → Bool} (hplain : ∀ c, plain c → Scan.isNameChar c)
    {cs : List Char} {count : Nat} (h : nameChar? plain cs = some count) (frames : List Frame) :
    Traces frames (cs.take count) (allIn frames (cs.take count)) := by
  unfold nameChar? at h
  split at h
  · cases h
  · rename_i c cs
    split at h
    · rename_i hc
      cases h
      exact traces_char (not_mem_tracedBare_of_isNameChar (hplain c hc))
    · obtain ⟨rest, htake, hrest⟩ := take_nameEscape? h
      rw [htake]
      refine (traces_escape frames).append (traces_of_forall fun d hd => traces_char ?_)
      rcases hrest d hd with hhex | rfl | rfl
      · exact not_mem_tracedBare_of_isNameChar (isNameChar_of_isHexDigit hhex)
      · decide
      · decide

theorem traces_nameRest (limit : Nat) (cs : List Char) (frames : List Frame) :
    Traces frames (cs.take (nameRest limit cs)) (allIn frames (cs.take (nameRest limit cs))) := by
  induction limit generalizing cs with
  | zero => exact traces_nil frames
  | succ limit ih =>
    unfold nameRest
    split
    · rename_i count hcount
      rw [List.take_add, allIn, List.map_append]
      exact (traces_nameChar? (fun _ h => h) hcount frames).append (ih _)
    · exact traces_nil frames

/-- **A name of the source language is inert.** The one character in it that
means something to a shell is the backslash of an escape, which a letter comes
after. -/
theorem IsIdentifier.inert {name : String} (h : IsIdentifier name) : Inert name := by
  -- the first character is read by a rule of its own, and the others by one loop
  obtain ⟨first, hfirst, hcount⟩ := Option.map_eq_some_iff.1 h
  have htake : name.toList = name.toList.take first
      ++ (name.toList.drop first).take (nameRest name.toList.length (name.toList.drop first)) := by
    rw [← List.take_add, hcount, List.take_length]
  have hspelled := isSpelled_of_name? h
  rw [List.take_length, String.ofList_toList] at hspelled
  have hchars : ∀ c ∈ ['\n', '!', ' ', '\t'], c ∉ name.toList := by
    have hnone : ['\n', '!', ' ', '\t'].all (!isSpellingChar ·) = true := by decide
    intro c hc hmem
    have hfalse := List.all_eq_true.1 hnone c hc
    rw [hspelled.chars c hmem] at hfalse
    cases hfalse
  obtain ⟨c, hhead, -⟩ := hspelled.head
  have hmem := List.mem_of_mem_head? hhead
  refine ⟨fun frames => ?_, ⟨c, hmem, ?_, ?_⟩, hchars _ (by simp), hchars _ (by simp)⟩
  · rw [htake, allIn, List.map_append]
    exact (traces_nameChar? (fun c hc => (Bool.and_eq_true_iff.1 hc).1) hfirst frames).append
      (traces_nameRest _ _ frames)
  · rintro rfl
    exact hchars ' ' (by simp) hmem
  · rintro rfl
    exact hchars '\t' (by simp) hmem

end ScriptToShell
