import ScriptToShell.Emit.Script
import ScriptToShell.Proofs.Phrase

/-!
# The lines of generated text

A phrase may stand on several lines, for a call that prints several
values is one command for each of them. Where the lines break is known:
behind a finished word and before an `echo` (`Settled`). It is also known
that no phrase ends in white space (`Solid`). A text with both is
**neat**, and every phrase is (`Phrase.neat`).

So when generated text is cut into lines again, each line is a command,
nothing of it is white space that could get lost at a line's end, and the
lines behind the first are known by their first word.
-/

namespace ScriptToShell

open Emit

/-! ## Pieces of a text -/

namespace Text

theorem pieces_cons_break (cs : List Char) : pieces ('\n' :: cs) = [] :: pieces cs := rfl

theorem pieces_cons {c : Char} (hc : c ≠ '\n') {cs p : List Char} {ps : List (List Char)}
    (h : pieces cs = p :: ps) : pieces (c :: cs) = (c :: p) :: ps := by
  show (if c = '\n' then _ else _) = _
  rw [if_neg hc, h]

theorem pieces_of_not_mem {cs : List Char} (h : '\n' ∉ cs) : pieces cs = [cs] := by
  induction cs with
  | nil => rfl
  | cons c cs ih =>
    rw [List.mem_cons, not_or] at h
    exact pieces_cons (Ne.symm h.1) (ih h.2)

theorem pieces_append_break (cs ds : List Char) :
    pieces (cs ++ '\n' :: ds) = pieces cs ++ pieces ds := by
  induction cs with
  | nil => rfl
  | cons c cs ih =>
    by_cases hc : c = '\n'
    · subst hc
      rw [List.cons_append, pieces_cons_break, pieces_cons_break, ih, List.cons_append]
    · obtain ⟨p, ps, hcs⟩ := List.exists_cons_of_ne_nil (pieces_ne_nil cs)
      rw [hcs] at ih
      rw [List.cons_append, pieces_cons hc ih, pieces_cons hc hcs]
      rfl

theorem not_mem_of_mem_pieces {cs p : List Char} (h : p ∈ pieces cs) : '\n' ∉ p := by
  induction cs generalizing p with
  | nil =>
    obtain rfl : p = [] := List.mem_singleton.1 h
    exact List.not_mem_nil
  | cons c cs ih =>
    by_cases hc : c = '\n'
    · subst hc
      rcases List.mem_cons.1 h with rfl | hmem
      · exact List.not_mem_nil
      · exact ih hmem
    · obtain ⟨q, qs, hcs⟩ := List.exists_cons_of_ne_nil (pieces_ne_nil cs)
      rw [pieces_cons hc hcs] at h
      rw [hcs] at ih
      rcases List.mem_cons.1 h with rfl | hmem
      · rw [List.mem_cons, not_or]
        exact ⟨Ne.symm hc, ih List.mem_cons_self⟩
      · exact ih (List.mem_cons_of_mem q hmem)

/-- Lines without a feed in them are the pieces of the text that they
make up. -/
theorem pieces_unpieces {ps : List (List Char)} (hne : ps ≠ []) (h : ∀ p ∈ ps, '\n' ∉ p) :
    pieces (unpieces ps) = ps := by
  induction ps with
  | nil => exact absurd rfl hne
  | cons p ps ih =>
    rw [List.forall_mem_cons] at h
    cases ps with
    | nil => exact pieces_of_not_mem h.1
    | cons q qs =>
      show pieces (p ++ '\n' :: unpieces (q :: qs)) = _
      rw [pieces_append_break, pieces_of_not_mem h.1, ih (List.cons_ne_nil q qs) h.2]
      rfl

/-- The pieces of joined texts are the pieces of each. -/
theorem pieces_joinWith {texts : List String} (hne : texts ≠ []) :
    pieces (joinWith "\n" texts).toList = texts.flatMap fun t => pieces t.toList := by
  induction texts with
  | nil => exact absurd rfl hne
  | cons t texts ih =>
    cases texts with
    | nil => simp [joinWith]
    | cons u us =>
      show pieces (t ++ "\n" ++ joinWith "\n" (u :: us)).toList = _
      have hbreak : (t ++ "\n" ++ joinWith "\n" (u :: us)).toList
          = t.toList ++ '\n' :: (joinWith "\n" (u :: us)).toList := by simp
      rw [hbreak, pieces_append_break, ih (List.cons_ne_nil u us)]
      rfl

theorem joinWith_map_ofList (ps : List (List Char)) :
    joinWith "\n" (ps.map String.ofList) = String.ofList (unpieces ps) := by
  induction ps with
  | nil => rfl
  | cons p ps ih =>
    cases ps with
    | nil => rfl
    | cons q qs =>
      show String.ofList p ++ "\n" ++ joinWith "\n" ((q :: qs).map String.ofList)
        = String.ofList (p ++ '\n' :: unpieces (q :: qs))
      rw [ih, ← String.toList_inj]
      simp

end Text

/-! ## Solid ends and settled breaks -/

namespace Shell

open Text

/-- **A text that does not end in white space.** -/
def Solid (cs : List Char) : Prop := ∃ c, cs.getLast? = some c ∧ isBlank c = false

/-- **A text in which every line break is settled**: a finished line stands
before it, and a command that prints behind it. -/
def Settled (cs : List Char) : Prop :=
  ∀ before behind, cs = before ++ '\n' :: behind → Solid before ∧ "echo ".toList <+: behind

/-- **A neat text**: its breaks are settled, and it has a solid end. -/
structure Neat (text : String) : Prop where
  /-- Its breaks are settled. -/
  settled : Settled text.toList
  /-- It has a solid end. -/
  solid : Solid text.toList

theorem Solid.ne_nil {cs : List Char} (h : Solid cs) : cs ≠ [] := by
  rintro rfl
  obtain ⟨c, hc, -⟩ := h
  cases hc

theorem Solid.append_left (cs : List Char) {ds : List Char} (h : Solid ds) : Solid (cs ++ ds) := by
  obtain ⟨c, hc, hends⟩ := h
  exact ⟨c, by rw [List.getLast?_append, hc]; rfl, hends⟩

/-- The end of a text is the end of its second part, if there is one. -/
theorem Solid.of_append {cs ds : List Char} (h : Solid (cs ++ ds)) (hne : ds ≠ []) : Solid ds := by
  obtain ⟨c, hc, hends⟩ := h
  rw [List.getLast?_append, List.getLast?_eq_some_getLast hne] at hc
  exact ⟨c, (List.getLast?_eq_some_getLast hne).trans hc, hends⟩

theorem solid_of_forall {cs : List Char} (hne : cs ≠ []) (h : ∀ c ∈ cs, isBlank c = false) :
    Solid cs :=
  ⟨cs.getLast hne, List.getLast?_eq_some_getLast hne, h _ (List.getLast_mem hne)⟩

theorem Solid.allBlank_eq_false {cs : List Char} (h : Solid cs) : allBlank cs = false := by
  obtain ⟨c, hc, hends⟩ := h
  rw [allBlank, List.all_eq_false]
  exact ⟨c, List.mem_of_getLast? hc, by simp [hends]⟩

theorem settled_of_not_mem {cs : List Char} (h : '\n' ∉ cs) : Settled cs := by
  rintro before behind rfl
  exact absurd (List.mem_append_right before List.mem_cons_self) h

/-- A break at the seam is impossible, since a settled text does not begin
with one. -/
theorem Settled.append {cs ds : List Char} (hcs : Settled cs) (hds : Settled ds) :
    Settled (cs ++ ds) := by
  intro before behind heq
  rcases List.append_eq_append_iff.1 heq with ⟨as, rfl, has⟩ | ⟨bs, hcs', hbs⟩
  · obtain ⟨hsolid, hecho⟩ := hds as behind has
    exact ⟨hsolid.append_left cs, hecho⟩
  · cases bs with
    | nil =>
      obtain ⟨hsolid, -⟩ := hds [] behind (by simpa using hbs.symm)
      exact absurd rfl hsolid.ne_nil
    | cons b bs =>
      rw [List.cons_append, List.cons.injEq] at hbs
      obtain ⟨rfl, rfl⟩ := hbs
      obtain ⟨hsolid, hecho⟩ := hcs before bs hcs'
      exact ⟨hsolid, hecho.trans (List.prefix_append bs ds)⟩

theorem Settled.of_break {cs ds : List Char} (h : Settled (cs ++ '\n' :: ds)) : Settled ds := by
  rintro before behind rfl
  obtain ⟨hsolid, hecho⟩ := h (cs ++ '\n' :: before) behind (by simp)
  refine ⟨?_, hecho⟩
  cases before with
  | nil =>
    -- the break right before would be the end of the line
    have hbreak : Solid ['\n'] := hsolid.of_append (List.cons_ne_nil _ _)
    obtain ⟨c, hc, hends⟩ := hbreak
    cases hc
    cases hends
  | cons b bs =>
    rw [List.append_cons] at hsolid
    exact hsolid.of_append (List.cons_ne_nil b bs)

/-- **Two lines with a settled break between them.** -/
theorem Settled.append_break {cs ds : List Char} (hcs : Settled cs) (hsolid : Solid cs)
    (hds : Settled ds) (hecho : "echo ".toList <+: ds) : Settled (cs ++ '\n' :: ds) := by
  intro before behind heq
  rcases List.append_eq_append_iff.1 heq with ⟨as, rfl, has⟩ | ⟨bs, hcs', hbs⟩
  · cases as with
    | nil =>
      rw [List.nil_append, List.cons.injEq] at has
      obtain ⟨-, rfl⟩ := has
      rw [List.append_nil]
      exact ⟨hsolid, hecho⟩
    | cons a as =>
      rw [List.cons_append, List.cons.injEq] at has
      obtain ⟨rfl, has⟩ := has
      obtain ⟨hbefore, hbehind⟩ := hds as behind has
      exact ⟨(hbefore.append_left ['\n']).append_left cs, hbehind⟩
  · cases bs with
    | nil =>
      rw [List.nil_append, List.cons.injEq] at hbs
      obtain ⟨-, rfl⟩ := hbs
      rw [List.append_nil] at hcs'
      rw [← hcs']
      exact ⟨hsolid, hecho⟩
    | cons b bs =>
      rw [List.cons_append, List.cons.injEq] at hbs
      obtain ⟨rfl, rfl⟩ := hbs
      obtain ⟨hbefore, hbehind⟩ := hcs before bs hcs'
      exact ⟨hbefore, hbehind.trans (List.prefix_append bs _)⟩

/-- **The pieces of a neat text** are solid, and those behind the first are
commands that print. -/
theorem pieces_of_settled {cs : List Char} (h : Settled cs) (hsolid : Solid cs) :
    ∃ ps, pieces cs = cs.takeWhile (· ≠ '\n') :: ps
      ∧ Solid (cs.takeWhile (· ≠ '\n')) ∧ ∀ p ∈ ps, Solid p ∧ "echo ".toList <+: p := by
  -- by the length of the text, cutting it at its first break
  induction hlen : cs.length using Nat.strongRecOn generalizing cs with
  | _ len ih =>
  subst hlen
  by_cases hmem : '\n' ∈ cs
  · obtain ⟨p, rest, rfl, hp⟩ := List.eq_append_cons_of_mem hmem
    obtain ⟨hfirst, hecho⟩ := h p rest rfl
    have hrest : rest ≠ [] := by
      rintro rfl
      exact absurd (List.prefix_nil.1 hecho) (by decide)
    have hlast : Solid rest := by
      rw [List.append_cons] at hsolid
      exact hsolid.of_append hrest
    obtain ⟨ps, hps, hfirst', hothers⟩ := ih rest.length (by simp; omega) h.of_break hlast rfl
    have htake : (p ++ '\n' :: rest).takeWhile (· ≠ '\n') = p := by
      rw [List.takeWhile_append_of_pos fun c hc => decide_eq_true (ne_of_mem_of_not_mem hc hp)]
      simp
    obtain ⟨rest', rfl⟩ := hecho
    refine ⟨("echo ".toList ++ rest').takeWhile (· ≠ '\n') :: ps, ?_, ?_, ?_⟩
    · rw [htake, pieces_append_break, pieces_of_not_mem hp, hps]
      rfl
    · rw [htake]
      exact hfirst
    · rw [List.forall_mem_cons]
      refine ⟨⟨hfirst', ?_⟩, hothers⟩
      rw [List.takeWhile_append_of_pos (by simp)]
      exact List.prefix_append _ _
  · have htake : cs.takeWhile (· ≠ '\n') = cs := by
      rw [← List.append_nil cs, List.takeWhile_append_of_pos fun c hc =>
        decide_eq_true (ne_of_mem_of_not_mem hc hmem)]
      rfl
    rw [htake]
    exact ⟨[], pieces_of_not_mem hmem, hsolid, nofun⟩

/-! ## Phrases are neat -/

section Neat

variable {s t : String}

theorem settled_append (hs : Settled s.toList) (ht : Settled t.toList) :
    Settled (s ++ t).toList := by
  rw [String.toList_append]
  exact hs.append ht

theorem solid_append (s : String) (ht : Solid t.toList) : Solid (s ++ t).toList := by
  rw [String.toList_append]
  exact ht.append_left s.toList

theorem Neat.append (hs : Settled s.toList) (ht : Neat t) : Neat (s ++ t) :=
  ⟨settled_append hs ht.settled, solid_append s ht.solid⟩

/-- A fixed text without a break in it. -/
theorem settled_of_all (t : String) (h : t.toList.all (· ≠ '\n') = true) : Settled t.toList :=
  settled_of_not_mem fun hmem => of_decide_eq_true (List.all_eq_true.1 h '\n' hmem) rfl

/-- A fixed text without a break in it, whose last character is known. -/
theorem neat_of_all (t : String) (h : t.toList.all (· ≠ '\n') = true)
    (hlast : (t.toList.getLast?.any (!isBlank ·)) = true) : Neat t := by
  refine ⟨settled_of_all t h, ?_⟩
  obtain ⟨c, hc, hends⟩ := (Option.any_eq_true _ _).1 hlast
  exact ⟨c, hc, by simpa using hends⟩

/-- A text between two others, of which the second is fixed. -/
theorem Neat.between (hs : Settled s.toList) (ht : Settled t.toList) {u : String} (hu : Neat u) :
    Neat (s ++ t ++ u) :=
  Neat.append (settled_append hs ht) hu

theorem neat_of_forall (hne : t.toList ≠ []) (h : ∀ c ∈ t.toList, isBlank c = false) : Neat t := by
  refine ⟨settled_of_not_mem fun hmem => ?_, solid_of_forall hne h⟩
  exact absurd (h '\n' hmem) (by decide)

theorem isBlank_of_isNameChar {c : Char} (h : isNameChar c = true) : isBlank c = false := by
  rw [isNameChar, Bool.or_eq_true, decide_eq_true_eq] at h
  rcases h with halnum | rfl
  · exact isBlank_of_isAlphanum halnum
  · decide

theorem neat_of_isName {name : String} (h : isName name = true) : Neat name := by
  obtain ⟨hne, hchars⟩ := isNameChar_of_isName h
  exact neat_of_forall hne fun c hc => isBlank_of_isNameChar (hchars c hc)

theorem neat_of_isBare {n : String} (h : Numeral.isBare n = true) : Neat n := by
  have hne : n.toList ≠ [] := by
    intro hnil
    rw [String.toList_eq_nil_iff.1 hnil] at h
    exact absurd h (by decide)
  refine neat_of_forall hne fun c hc => ?_
  rcases Numeral.isBareChar_of_isBare h c hc with halnum | rfl | rfl | rfl
  · exact isBlank_of_isAlphanum halnum
  · decide
  · decide
  · decide

theorem neat_toString (index : Nat) : Neat (toString index) := by
  rw [Nat.toString_eq_ofList_toDigits]
  refine neat_of_forall ?_ fun c hc => ?_
  · rw [String.toList_ofList]
    exact Nat.toDigits_ne_nil
  · rw [String.toList_ofList] at hc
    have hdigit := Nat.isDigit_of_mem_toDigits (by decide) (by decide) hc
    exact isBlank_of_isAlphanum (by simp [Char.isAlphanum, hdigit])

theorem settled_quoted (h : ∀ c ∈ t.toList, c ∉ activeCharacters) : Settled t.toList :=
  settled_of_not_mem fun hmem => h '\n' hmem (by decide)

theorem neat_redirection {redirection : String} (h : redirection ∈ redirections) (ht : Neat t) :
    Neat (t ++ redirection) := by
  simp only [redirections, List.mem_cons, List.not_mem_nil, or_false] at h
  rcases h with rfl | rfl
  · rw [String.append_empty]
    exact ht
  · exact Neat.append ht.settled (neat_of_all " >&2" (by decide) (by decide))

end Neat

theorem Phrase.echo_prefix {ok : String → Prop} {t : String} (h : Phrase ok .prints t) :
    "echo ".toList <+: t.toList := by
  cases h with
  | line hv h =>
    simp only [String.toList_append, List.append_assoc]
    exact List.prefix_append _ _
  | lines hv h ht =>
    simp only [String.toList_append, List.append_assoc]
    exact List.prefix_append _ _

/-- **Every phrase is neat**, rule by rule. -/
theorem Phrase.neat {ok : String → Prop} (hok : ∀ name, ok name → isName name = true)
    {use : Use} {text : String} (h : Phrase ok use text) : Neat text := by
  have hblank : Settled " ".toList := settled_of_all " " (by decide)
  have hquote : Neat "\"" := neat_of_all "\"" (by decide) (by decide)
  have hbracket : Neat " ]" := neat_of_all " ]" (by decide) (by decide)
  induction h with
  | reference h =>
    exact Neat.between (settled_of_all "\"$" (by decide)) (neat_of_isName (hok _ h)).settled hquote
  | quoted h => exact Neat.between hquote.settled (settled_quoted h) hquote
  | scriptDir => exact neat_of_all _ (by decide) (by decide)
  | scriptPath => exact neat_of_all _ (by decide) (by decide)
  | arithmetic op _ _ ihl ihr =>
    have hleft := settled_append (settled_of_all "$(( " (by decide)) ihl.settled
    have htoken := settled_append (settled_append hleft hblank)
      (settled_of_all op.token (by cases op <;> decide))
    exact Neat.between (settled_append htoken hblank) ihr.settled
      (neat_of_all " ))" (by decide) (by decide))
  | boolean _ ih =>
    exact Neat.between (settled_of_all "$( if " (by decide)) ih.settled
      (neat_of_all "; then printf true; else printf false; fi )" (by decide) (by decide))
  | substitution _ ih =>
    exact Neat.between (settled_of_all "$(" (by decide)) ih.settled
      (neat_of_all ")" (by decide) (by decide))
  | number h => exact neat_of_isBare h
  | word _ ih => exact ih
  | last _ ih => exact ih
  | more _ _ iha ihas => exact Neat.between iha.settled hblank ihas
  | name h => exact neat_of_isName (hok _ h)
  | call h _ ih => exact Neat.between (neat_of_isName (hok _ h)).settled hblank ih
  | echo h => exact neat_redirection h (neat_of_all "echo" (by decide) (by decide))
  | prints _ ih => exact ih
  | line _ h ih => exact neat_redirection h (Neat.append (settled_of_all "echo " (by decide)) ih)
  | lines hv h ht ihv iht =>
    have hline := neat_redirection h (Neat.append (settled_of_all "echo " (by decide)) ihv)
    have hbreak := hline.settled.append_break hline.solid iht.settled ht.echo_prefix
    refine ⟨?_, solid_append _ iht.solid⟩
    simpa using hbreak
  | comparison ho _ _ ihl ihr =>
    have hoperators : ∀ o ∈ testOperators, o.toList.all (· ≠ '\n') = true := by decide
    have hleft := settled_append (settled_of_all "[ " (by decide)) ihl.settled
    have hoperator := settled_append (settled_append hleft hblank)
      (settled_of_all _ (hoperators _ ho))
    exact Neat.between (settled_append hoperator hblank) ihr.settled hbracket
  | nonzero _ ih =>
    exact Neat.between (settled_of_all "[ " (by decide)) ih.settled
      (neat_of_all " -ne 0 ]" (by decide) (by decide))
  | truthy _ ih =>
    have hempty := settled_append (settled_append (settled_of_all "[ -n " (by decide)) ih.settled)
      (settled_of_all " ] && [ " (by decide))
    have hfalse := settled_append (settled_append hempty ih.settled)
      (settled_of_all " != false ] && [ " (by decide))
    have hzero := settled_append (settled_append hfalse ih.settled)
      (settled_of_all " != 0 ] && [ " (by decide))
    exact Neat.between hzero ih.settled (neat_of_all " != null ]" (by decide) (by decide))
  | constant b => cases b <;> exact neat_of_all _ (by decide) (by decide)
  | status _ ih => exact ih
  | logical op _ _ ihl ihr =>
    have htoken := settled_append (settled_append ihl.settled hblank)
      (settled_of_all op.token (by cases op <;> decide))
    exact Neat.between htoken hblank ihr
  | negated _ ih => exact Neat.append (settled_of_all "! " (by decide)) ih
  | braced _ ih =>
    exact Neat.between (settled_of_all "\x7b " (by decide)) ih.settled
      (neat_of_all "; \x7d" (by decide) (by decide))

/-! ## Command lines -/

/-- The words that a line of a script may begin with and that are no name
of the program. -/
def builtinWords : List String := ["echo", "local", "return", ":"]

/-- **A text that begins with a word**: it ends behind the word, or goes on
with a blank or an equality sign. -/
def BeginsWith (word : String) (text : String) : Prop :=
  ∃ rest, text.toList = word.toList ++ rest ∧ ∀ c ∈ rest.head?, c = ' ' ∨ c = '='

/-- **A command line**: neat, and its first word is a name of the program
or one of a few others. -/
structure IsCommandLine (ok : String → Prop) (text : String) : Prop where
  /-- A command line is neat. -/
  neat : Neat text
  /-- Its first word is known. -/
  begins : ∃ word, (ok word ∨ word ∈ builtinWords) ∧ BeginsWith word text

section CommandLine

variable {ok : String → Prop}

theorem beginsWith_self (word : String) : BeginsWith word word :=
  ⟨[], (List.append_nil _).symm, nofun⟩

theorem beginsWith_append {word rest : String} {c : Char} (h : rest.toList.head? = some c)
    (hc : c = ' ' ∨ c = '=') : BeginsWith word (word ++ rest) := by
  refine ⟨rest.toList, String.toList_append, fun d hd => ?_⟩
  rw [h] at hd
  cases hd
  exact hc

/-- **A command begins with the name of what it calls.** -/
theorem Phrase.begins {t : String} (h : Phrase ok .command t) :
    ∃ word, (ok word ∨ word ∈ builtinWords) ∧ BeginsWith word t := by
  have hecho : "echo" ∈ builtinWords := by decide
  cases h with
  | name h => exact ⟨t, .inl h, beginsWith_self t⟩
  | call h _ =>
    rw [String.append_assoc]
    exact ⟨_, .inl h, beginsWith_append (c := ' ') (by simp) (.inl rfl)⟩
  | echo h =>
    simp only [redirections, List.mem_cons, List.not_mem_nil, or_false] at h
    rcases h with rfl | rfl
    · exact ⟨"echo", .inr hecho, beginsWith_self _⟩
    · exact ⟨"echo", .inr hecho, beginsWith_append (c := ' ') (by decide) (.inl rfl)⟩
  | prints h =>
    obtain ⟨rest, hrest⟩ := h.echo_prefix
    exact ⟨"echo", .inr hecho, ' ' :: rest, hrest.symm, by simp⟩

/-- The first line of a text begins as the text does, if no line breaks
inside the word. -/
theorem BeginsWith.takeWhile {word text : String} (h : BeginsWith word text)
    (hword : '\n' ∉ word.toList) :
    BeginsWith word (String.ofList (text.toList.takeWhile (· ≠ '\n'))) := by
  obtain ⟨rest, htext, hrest⟩ := h
  refine ⟨rest.takeWhile (· ≠ '\n'), ?_, fun c hc => ?_⟩
  · rw [String.toList_ofList, htext, List.takeWhile_append_of_pos fun c hc =>
      decide_eq_true (ne_of_mem_of_not_mem hc hword)]
  · cases rest with
    | nil => cases hc
    | cons d rest =>
      rw [List.takeWhile_cons] at hc
      split at hc
      · exact hrest c hc
      · cases hc

/-- No line loses its end: a line that is not empty is solid, and the last
one is not empty. -/
theorem linesOfPieces_eq {ps : List (List Char)} (h : ∀ p ∈ ps, p = [] ∨ Solid p)
    (hlast : ps.getLast? ≠ some []) : linesOfPieces ps = ps := by
  induction ps with
  | nil => rfl
  | cons p ps ih =>
    rw [List.forall_mem_cons] at h
    cases ps with
    | nil =>
      have hne : p ≠ [] := by
        rintro rfl
        exact hlast rfl
      show (if p.isEmpty then [] else [p]) = [p]
      rw [if_neg (by simpa using hne)]
    | cons q qs =>
      have hreturn : dropReturn p = p := by
        rcases h.1 with rfl | hsolid
        · rfl
        · unfold dropReturn
          split
          · rename_i cs hreverse
            obtain ⟨c, hc, hends⟩ := hsolid
            rw [List.getLast?_eq_head?_reverse, hreverse] at hc
            cases hc
            cases hends
          · rfl
      rw [List.getLast?_cons_cons] at hlast
      show dropReturn p :: linesOfPieces (q :: qs) = _
      rw [hreturn, ih h.2 hlast]

/-- **The lines of a text are its pieces** if none of them loses its
end. -/
theorem splitText_eq {text : String} (h : ∀ p ∈ pieces text.toList, p = [] ∨ Solid p)
    (hlast : (pieces text.toList).getLast? ≠ some []) :
    splitText text = (pieces text.toList).map String.ofList := by
  unfold splitText
  split
  · rw [lines, linesOfPieces_eq h hlast]
  · rename_i hmem
    rw [pieces_of_not_mem hmem]
    simp

theorem splitText_of_neat {text : String} (h : Neat text) :
    splitText text = (pieces text.toList).map String.ofList := by
  obtain ⟨ps, hps, hfirst, hothers⟩ := pieces_of_settled h.settled h.solid
  have hsolid : ∀ p ∈ pieces text.toList, Solid p := by
    rw [hps, List.forall_mem_cons]
    exact ⟨hfirst, fun p hp => (hothers p hp).1⟩
  refine splitText_eq (fun p hp => .inr (hsolid p hp)) fun hnil => ?_
  exact (hsolid [] (List.mem_of_getLast? hnil)).ne_nil rfl

/-- **A call as a statement becomes command lines**, one or several. -/
theorem isCommandLine_of_mem_splitText (hok : ∀ name, ok name → isName name = true) {text : String}
    (h : Phrase ok .command text) : ∀ line ∈ splitText text, IsCommandLine ok line := by
  have hneat := h.neat hok
  obtain ⟨ps, hps, hfirst, hothers⟩ := pieces_of_settled hneat.settled hneat.solid
  have hsettled : ∀ p ∈ pieces text.toList, Settled p :=
    fun p hp => settled_of_not_mem (not_mem_of_mem_pieces hp)
  rw [splitText_of_neat hneat, hps, List.map_cons, List.forall_mem_cons, List.forall_mem_map]
  rw [hps, List.forall_mem_cons] at hsettled
  refine ⟨⟨⟨?_, ?_⟩, ?_⟩, fun p hp => ⟨⟨?_, ?_⟩, ?_⟩⟩
  · rw [String.toList_ofList]
    exact hsettled.1
  · rw [String.toList_ofList]
    exact hfirst
  · obtain ⟨word, hword, hbegins⟩ := h.begins
    refine ⟨word, hword, hbegins.takeWhile fun hmem => ?_⟩
    rcases hword with hname | hbuiltin
    · have hchar := (isNameChar_of_isName (hok word hname)).2 _ hmem
      exact absurd hchar (by decide)
    · have hnone : ∀ word ∈ builtinWords, '\n' ∉ word.toList := by decide
      exact hnone word hbuiltin hmem
  · rw [String.toList_ofList]
    exact hsettled.2 p hp
  · rw [String.toList_ofList]
    exact (hothers p hp).1
  · obtain ⟨rest, hrest⟩ := (hothers p hp).2
    refine ⟨"echo", .inr (by decide), ' ' :: rest, ?_, by simp⟩
    rw [String.toList_ofList, ← hrest]
    rfl

end CommandLine

end Shell

end ScriptToShell
