import ScriptToShell.Proofs.Phrase

/-!
# A value is one closed word

Values are pasted into commands. That this is safe rests on one fact: a
value is a single word in which everything that is opened is closed
again, so no text of a program can end its quotes and go on as a command.

The fact is stated against a lexer that knows nothing of values. It walks
through a text character by character and keeps a stack of what is open:
double quotes, a command substitution `$( )`, or an arithmetic expansion
`$(( ))`, which both start unquoted again even between quotes. It records
the characters it meets while nothing is open, for these are the ones a
shell would split at. Characters that would make a shell read on in yet
another way – a backslash, a backquote, and outside of quotes a single
quote or the sign of a comment – it refuses.

A piece of text **passes** under some enclosures if the lexer comes out
of it as it went in. Pieces that pass can be put behind each other, and
inside quotes and substitutions (`passes_quotes`, `passes_command`,
`passes_arithmetic`), which is how the rules of the grammar are built.
-/

namespace ScriptToShell.Shell

/-! ## The lexer -/

/-- **What is open** around a character. -/
inductive Enclosure where
  | quotes
  /-- A command substitution. -/
  | command
  /-- An arithmetic expansion. -/
  | arithmetic
deriving DecidableEq, Repr, Inhabited

/-- What the characters right before leave undecided. -/
inductive Pending where
  | nothing
  /-- Behind a dollar. -/
  | dollar
  /-- Behind `$(`, which opens one or the other. -/
  | opening
  /-- Behind the first of the two parentheses that end an arithmetic
  expansion. -/
  | closing
deriving DecidableEq, Repr, Inhabited

/-- **How far a text has been taken apart.** A lexer in its neutral state
has nothing open and nothing undecided. -/
structure Lexer where
  /-- What is open, the innermost first. -/
  enclosures : List Enclosure := []
  /-- What is undecided. -/
  pending : Pending := .nothing
  /-- The characters met while nothing was open. -/
  bare : List Char := []
deriving DecidableEq, Repr, Inhabited

/-- The characters that are refused between double quotes. -/
def refusedQuoted : List Char := ['\\', '\x60']

/-- The characters that are refused everywhere else. -/
def refusedBare : List Char := ['\\', '\x60', '\'', '#']

namespace Lexer

/-- Meets a character that does not belong to the one before. -/
def meet (s : Lexer) (c : Char) : Option Lexer :=
  if c = '$' then some { s with pending := .dollar }
  else match s.enclosures with
  | [] =>
    if c = '"' then some { s with enclosures := [.quotes], pending := .nothing }
    else if c ∈ refusedBare then none
    else some { s with pending := .nothing, bare := s.bare ++ [c] }
  | .quotes :: outer =>
    if c = '"' then some { s with enclosures := outer, pending := .nothing }
    else if c ∈ refusedQuoted then none
    else some { s with pending := .nothing }
  | .command :: outer =>
    if c = '"' then some { s with enclosures := .quotes :: .command :: outer, pending := .nothing }
    else if c = ')' then some { s with enclosures := outer, pending := .nothing }
    else if c = '(' ∨ c ∈ refusedBare then none
    else some { s with pending := .nothing }
  | .arithmetic :: outer =>
    if c = '"' then
      some { s with enclosures := .quotes :: .arithmetic :: outer, pending := .nothing }
    else if c = ')' then some { s with pending := .closing }
    else if c = '(' ∨ c ∈ refusedBare then none
    else some { s with pending := .nothing }

/-- **Takes one character.** -/
def step (s : Lexer) (c : Char) : Option Lexer :=
  match s.pending with
  | .nothing => s.meet c
  | .dollar => if c = '(' then some { s with pending := .opening } else s.meet c
  | .opening =>
    if c = '(' then
      some { s with enclosures := .arithmetic :: s.enclosures, pending := .nothing }
    else meet { s with enclosures := .command :: s.enclosures, pending := .nothing } c
  | .closing =>
    if c = ')' then some { s with enclosures := s.enclosures.tail, pending := .nothing } else none

/-- **Takes a text apart.** -/
def lex (s : Lexer) (text : List Char) : Option Lexer := text.foldlM step s

theorem lex_append (s : Lexer) (text rest : List Char) :
    s.lex (text ++ rest) = (s.lex text).bind fun s' => s'.lex rest := by
  unfold lex
  rw [List.foldlM_append]
  rfl

theorem lex_cons (s : Lexer) (c : Char) (text : List Char) :
    s.lex (c :: text) = (s.step c).bind fun s' => s'.lex text := by
  unfold lex
  rw [List.foldlM_cons]
  rfl

end Lexer

/-- Whether an unquoted character ends a word: white space or an
operator. -/
def separates (c : Char) : Bool :=
  Text.isBlank c || c = ';' || c = '&' || c = '|' || c = '<' || c = '>' || c = '(' || c = ')'

/-- **One closed word**: a text behind which the lexer is in its neutral
state again, and in which it never meets a separator while nothing is
open. -/
def IsClosedWord (text : String) : Prop :=
  text ≠ "" ∧ ∃ bare, Lexer.lex {} text.toList = some { bare } ∧ ∀ c ∈ bare, separates c = false

-- quotes that are closed too early leave the rest of the text bare
example : Lexer.lex {} "\"a\"; b".toList = some { bare := [';', ' ', 'b'] } := by decide

/-! ## Texts that pass -/

/-- **A text that passes**: the lexer comes out of it as it went in, having
met no separator in the open. -/
def Passes (enclosures : List Enclosure) (text : List Char) : Prop :=
  ∃ bare, (∀ c ∈ bare, separates c = false) ∧
    ∀ before, Lexer.lex ⟨enclosures, .nothing, before⟩ text
      = some ⟨enclosures, .nothing, before ++ bare⟩

theorem passes_nil (enclosures : List Enclosure) : Passes enclosures [] := by
  refine ⟨[], List.forall_mem_nil _, fun before => ?_⟩
  rw [List.append_nil]
  rfl

theorem Passes.append {enclosures : List Enclosure} {text rest : List Char}
    (h : Passes enclosures text) (hrest : Passes enclosures rest) :
    Passes enclosures (text ++ rest) := by
  obtain ⟨bare, hbare, hlex⟩ := h
  obtain ⟨bare', hbare', hlex'⟩ := hrest
  refine ⟨bare ++ bare', List.forall_mem_append.2 ⟨hbare, hbare'⟩, fun before => ?_⟩
  rw [Lexer.lex_append, hlex]
  show Lexer.lex _ rest = _
  rw [hlex', List.append_assoc]

/-- A text passes if each of its characters does. -/
theorem passes_of_forall {enclosures : List Enclosure} {text : List Char}
    (h : ∀ c ∈ text, Passes enclosures [c]) : Passes enclosures text := by
  induction text with
  | nil => exact passes_nil enclosures
  | cons c text ih =>
    rw [List.forall_mem_cons] at h
    exact h.1.append (ih h.2)

/-- A text between double quotes passes if it does so inside them. -/
theorem passes_quotes {enclosures : List Enclosure} {text : List Char}
    (hunquoted : enclosures.head? ≠ some .quotes) (h : Passes (.quotes :: enclosures) text) :
    Passes enclosures ('"' :: text ++ ['"']) := by
  obtain ⟨bare, hbare, hlex⟩ := h
  refine ⟨bare, hbare, fun before => ?_⟩
  have hopen : Lexer.step ⟨enclosures, .nothing, before⟩ '"'
      = some ⟨.quotes :: enclosures, .nothing, before⟩ := by
    rcases enclosures with _ | ⟨_ | _ | _, outer⟩
    · rfl
    · exact absurd rfl hunquoted
    · rfl
    · rfl
  rw [List.cons_append, Lexer.lex_cons, hopen]
  show Lexer.lex _ (text ++ ['"']) = _
  rw [Lexer.lex_append, hlex]
  rfl

/-- Whatever is open, `$(` leaves it to the next character what it
opens. -/
theorem lex_dollar_paren (enclosures : List Enclosure) (before text : List Char) :
    Lexer.lex ⟨enclosures, .nothing, before⟩ ('$' :: '(' :: text)
      = Lexer.lex ⟨enclosures, .opening, before⟩ text := rfl

/-- A command substitution passes if the command does inside it. The
command may not begin with a parenthesis, for that would make it
arithmetic. -/
theorem passes_command {enclosures : List Enclosure} {text : List Char} {c : Char}
    (hhead : text.head? = some c) (hc : c ≠ '(') (h : Passes (.command :: enclosures) text) :
    Passes enclosures ('$' :: '(' :: text ++ [')']) := by
  obtain ⟨text, rfl⟩ : ∃ rest, text = c :: rest := by
    cases text with
    | nil => cases hhead
    | cons d rest =>
      cases hhead
      exact ⟨rest, rfl⟩
  obtain ⟨bare, hbare, hlex⟩ := h
  refine ⟨bare, hbare, fun before => ?_⟩
  have hopen : Lexer.step ⟨enclosures, .opening, before⟩ c
      = Lexer.step ⟨.command :: enclosures, .nothing, before⟩ c := if_neg hc
  rw [List.cons_append, List.cons_append, lex_dollar_paren, List.cons_append, Lexer.lex_cons, hopen,
    ← Lexer.lex_cons, ← List.cons_append, Lexer.lex_append, hlex]
  rfl

/-- An arithmetic expansion passes if the expression does inside it. -/
theorem passes_arithmetic {enclosures : List Enclosure} {text : List Char}
    (h : Passes (.arithmetic :: enclosures) text) :
    Passes enclosures ('$' :: '(' :: '(' :: text ++ [')', ')']) := by
  obtain ⟨bare, hbare, hlex⟩ := h
  refine ⟨bare, hbare, fun before => ?_⟩
  rw [List.cons_append, List.cons_append, lex_dollar_paren]
  show Lexer.lex ⟨.arithmetic :: enclosures, .nothing, before⟩ (text ++ [')', ')']) = _
  rw [Lexer.lex_append, hlex]
  rfl

/-! ## Ordinary characters -/

/-- The characters that mean something between double quotes. -/
def meaningfulQuoted : List Char := '"' :: '$' :: refusedQuoted

/-- The characters that mean something outside of quotes. -/
def meaningfulBare : List Char := '"' :: '$' :: '(' :: ')' :: refusedBare

theorem passes_quoted {outer : List Enclosure} {c : Char} (hc : c ∉ meaningfulQuoted) :
    Passes (.quotes :: outer) [c] := by
  simp only [meaningfulQuoted, List.mem_cons, not_or] at hc
  refine ⟨[], List.forall_mem_nil _, fun before => ?_⟩
  simp [Lexer.lex, Lexer.step, Lexer.meet, hc]

theorem passes_bare {enclosures : List Enclosure} {c : Char}
    (hunquoted : enclosures.head? ≠ some .quotes) (hc : c ∉ meaningfulBare)
    (hseparates : enclosures = [] → separates c = false) : Passes enclosures [c] := by
  simp only [meaningfulBare, List.mem_cons, not_or] at hc
  rcases enclosures with _ | ⟨_ | _ | _, outer⟩
  · refine ⟨[c], List.forall_mem_singleton.2 (hseparates rfl), fun before => ?_⟩
    simp [Lexer.lex, Lexer.step, Lexer.meet, hc]
  · exact absurd rfl hunquoted
  · refine ⟨[], List.forall_mem_nil _, fun before => ?_⟩
    simp [Lexer.lex, Lexer.step, Lexer.meet, hc]
  · refine ⟨[], List.forall_mem_nil _, fun before => ?_⟩
    simp [Lexer.lex, Lexer.step, Lexer.meet, hc]

/-- **A word** passes wherever no quotes are open around it. -/
structure IsWhole (text : String) : Prop where
  /-- A word has a character. -/
  nonempty : text ≠ ""
  /-- Everything in a word is closed, and nothing in it separates. -/
  passes : ∀ enclosures, enclosures.head? ≠ some .quotes → Passes enclosures text.toList

/-- **A text that passes inside a command.** -/
def IsInner (text : String) : Prop := ∀ outer, Passes (.command :: outer) text.toList

theorem IsWhole.isInner {text : String} (h : IsWhole text) : IsInner text :=
  fun outer => h.passes (.command :: outer) (by simp)

theorem IsInner.append {s t : String} (hs : IsInner s) (ht : IsInner t) : IsInner (s ++ t) := by
  intro outer
  rw [String.toList_append]
  exact (hs outer).append (ht outer)

/-- A fixed text without a character that means something. -/
theorem isInner_of_all (text : String) (h : text.toList.all (· ∉ meaningfulBare) = true) :
    IsInner text := by
  intro outer
  refine passes_of_forall fun c hc => ?_
  exact passes_bare (by simp) (of_decide_eq_true (List.all_eq_true.1 h c hc)) (by simp)

theorem isWhole_quoted {text : String}
    (h : ∀ outer, Passes (.quotes :: outer) text.toList) : IsWhole ("\"" ++ text ++ "\"") where
  nonempty := by simp
  passes enclosures hunquoted := by
    have hquotes := passes_quotes hunquoted (h enclosures)
    simpa using hquotes

theorem isWhole_substitution {text : String} {c : Char} (hhead : text.toList.head? = some c)
    (hc : c ≠ '(') (h : IsInner text) : IsWhole ("$(" ++ text ++ ")") where
  nonempty := by simp
  passes enclosures _ := by
    have hcommand := passes_command hhead hc (h enclosures)
    simpa using hcommand

/-! ## Values -/

/-- The dollar of a variable waits for a parenthesis, which a name does
not begin with. -/
theorem isWhole_variable {name : String} (h : isName name = true) :
    IsWhole ("\"$" ++ name ++ "\"") := by
  have hsplit : "\"$" ++ name = "\"" ++ ("$" ++ name) := by
    rw [← String.append_assoc]
    rfl
  rw [hsplit]
  refine isWhole_quoted fun outer => ?_
  obtain ⟨hne, hchars⟩ := isNameChar_of_isName h
  obtain ⟨c, cs, hname⟩ := List.exists_cons_of_ne_nil hne
  rw [hname, List.forall_mem_cons] at hchars
  have hordinary : ∀ d, isNameChar d = true → d ∉ meaningfulQuoted ∧ d ≠ '(' := by
    intro d hd
    have hspecial := not_special_of_isNameChar hd
    simp only [specialCharacters, List.mem_cons, List.not_mem_nil, or_false, not_or] at hspecial
    simp [meaningfulQuoted, refusedQuoted, hspecial]
  have hfirst : Passes (.quotes :: outer) ['$', c] := by
    obtain ⟨hquoted, hparen⟩ := hordinary c hchars.1
    simp only [meaningfulQuoted, List.mem_cons, not_or] at hquoted
    refine ⟨[], List.forall_mem_nil _, fun before => ?_⟩
    simp [Lexer.lex, Lexer.step, Lexer.meet, hquoted, hparen]
  rw [String.toList_append, hname]
  exact hfirst.append (passes_of_forall fun d hd => passes_quoted (hordinary d (hchars.2 d hd)).1)

theorem isWhole_literal {text : String} (h : ∀ c ∈ text.toList, c ∉ activeCharacters) :
    IsWhole ("\"" ++ text ++ "\"") := by
  refine isWhole_quoted fun outer => passes_of_forall fun c hc => passes_quoted fun hmem => ?_
  exact h c hc ((by decide : meaningfulQuoted ⊆ activeCharacters) hmem)

theorem isWhole_scriptPath : IsWhole Emit.scriptPath := by
  refine ⟨by decide, fun enclosures hunquoted => ⟨[], List.forall_mem_nil _, fun before => ?_⟩⟩
  rw [List.append_nil]
  rcases enclosures with _ | ⟨_ | _ | _, outer⟩
  · rfl
  · exact absurd rfl hunquoted
  · rfl
  · rfl

theorem isWhole_scriptDir : IsWhole Emit.scriptDir := by
  refine ⟨by decide, fun enclosures hunquoted => ⟨[], List.forall_mem_nil _, fun before => ?_⟩⟩
  rw [List.append_nil]
  rcases enclosures with _ | ⟨_ | _ | _, outer⟩
  · rfl
  · exact absurd rfl hunquoted
  · rfl
  · rfl

/-- An operator between two words is no more than characters to an
arithmetic expansion, also if it is one of `<<` and `&`. -/
theorem isWhole_arithmetic {l r : String} (op : BinaryOp) (hl : IsWhole l) (hr : IsWhole r) :
    IsWhole ("$(( " ++ l ++ " " ++ op.token ++ " " ++ r ++ " ))") where
  nonempty := by simp
  passes enclosures _ := by
    have hplain : ∀ text : String, text.toList.all (· ∉ meaningfulBare) = true →
        Passes (.arithmetic :: enclosures) text.toList := by
      intro text h
      refine passes_of_forall fun c hc => ?_
      exact passes_bare (by simp) (of_decide_eq_true (List.all_eq_true.1 h c hc)) (by simp)
    have hblank := hplain " " (by decide)
    have htoken := hplain op.token (by cases op <;> decide)
    have hleft := hl.passes (.arithmetic :: enclosures) (by simp)
    have hright := hr.passes (.arithmetic :: enclosures) (by simp)
    have hall := passes_arithmetic ((((((hblank.append hleft).append hblank).append htoken).append
      hblank).append hright).append hblank)
    simpa using hall

theorem isWhole_boolean {test : String} (h : IsInner test) : IsWhole (Emit.booleanWord test) := by
  have hbody : IsInner (" if " ++ test ++ "; then printf true; else printf false; fi ") :=
    ((isInner_of_all _ (by decide)).append h).append (isInner_of_all _ (by decide))
  have hword := isWhole_substitution (c := ' ') (by simp) (by decide) hbody
  have htext : "$(" ++ (" if " ++ test ++ "; then printf true; else printf false; fi ") ++ ")"
      = Emit.booleanWord test := by
    rw [← String.toList_inj]
    simp [Emit.booleanWord]
  rwa [htext] at hword

/-- A character of a bare number is neither white space nor an operator. -/
theorem separates_of_isBareChar {c : Char} (h : Numeral.IsBareChar c) : separates c = false := by
  rcases h with h | rfl | rfl | rfl
  · have hne : ∀ d : Char, d.isAlphanum = false → c ≠ d := by
      rintro d hd rfl
      exact absurd h (by simp [hd])
    have hall : [';', '&', '|', '<', '>', '(', ')'].all (!·.isAlphanum) = true := by decide
    have hoperator := fun d hd => hne d (by simpa using List.all_eq_true.1 hall d hd)
    simp only [List.forall_mem_cons, List.not_mem_nil] at hoperator
    simp [separates, Text.isBlank_of_isAlphanum h, hoperator]
  · decide
  · decide
  · decide

/-- A number that may stand bare is a word without any quotes. -/
theorem isWhole_number {n : String} (h : Numeral.isBare n = true) : IsWhole n where
  nonempty := by
    rintro rfl
    revert h
    decide
  passes enclosures hunquoted := by
    have hchars := Numeral.isBareChar_of_isBare h
    have hnone : meaningfulBare.all (¬ Numeral.IsBareChar ·) = true := by decide
    refine passes_of_forall fun c hc => passes_bare hunquoted (fun hmem => ?_) fun _ => ?_
    · exact of_decide_eq_true (List.all_eq_true.1 hnone c hmem) (hchars c hc)
    · exact separates_of_isBareChar (hchars c hc)

/-! ## Every phrase -/

/-- **What a phrase is to the lexer**, by its use: a whole word, or a text
that passes inside a command. A command moreover does not begin with a
parenthesis. -/
def Use.Holds : Use → String → Prop
  | .value, text | .argument, text => IsWhole text
  | .arguments, text | .test, text => IsInner text
  | .prints, text | .command, text =>
    IsInner text ∧ ∃ c, text.toList.head? = some c ∧ c ≠ '('

theorem isInner_redirection {redirection : String} (h : redirection ∈ Emit.redirections) :
    IsInner redirection := by
  have hall : ∀ r ∈ Emit.redirections, r.toList.all (· ∉ meaningfulBare) = true := by decide
  exact isInner_of_all _ (hall redirection h)

theorem isInner_testOperator {o : String} (h : o ∈ Emit.testOperators) : IsInner o := by
  have hall : ∀ o ∈ Emit.testOperators, o.toList.all (· ∉ meaningfulBare) = true := by decide
  exact isInner_of_all _ (hall o h)

theorem isInner_name {name : String} (h : isName name = true) :
    IsInner name ∧ ∃ c, name.toList.head? = some c ∧ c ≠ '(' := by
  obtain ⟨hne, hchars⟩ := isNameChar_of_isName h
  have hordinary : ∀ d ∈ name.toList, d ∉ meaningfulBare ∧ d ≠ '(' := by
    intro d hd
    have hspecial := not_special_of_isNameChar (hchars d hd)
    simp only [specialCharacters, List.mem_cons, List.not_mem_nil, or_false, not_or] at hspecial
    simp [meaningfulBare, refusedBare, hspecial]
  refine ⟨fun outer => passes_of_forall fun d hd => ?_, ?_⟩
  · exact passes_bare (by simp) (hordinary d hd).1 (by simp)
  · obtain ⟨c, cs, hname⟩ := List.exists_cons_of_ne_nil hne
    rw [hname] at hordinary ⊢
    exact ⟨c, rfl, (hordinary c List.mem_cons_self).2⟩

/-- **Every phrase holds for its use**, rule by rule. -/
theorem Phrase.holds {use : Use} {text : String} (h : Phrase (isName · = true) use text) :
    use.Holds text := by
  have hblank : IsInner " " := isInner_of_all _ (by decide)
  induction h with
  | reference h => exact isWhole_variable h
  | quoted h => exact isWhole_literal h
  | scriptDir => exact isWhole_scriptDir
  | scriptPath => exact isWhole_scriptPath
  | arithmetic op _ _ ihl ihr => exact isWhole_arithmetic op ihl ihr
  | boolean _ ih => exact isWhole_boolean ih
  | substitution _ ih =>
    obtain ⟨hinner, c, hhead, hc⟩ := ih
    exact isWhole_substitution hhead hc hinner
  | number h => exact isWhole_number h
  | word _ ih => exact ih
  | last _ ih => exact ih.isInner
  | more _ _ iha ihas => exact (iha.isInner.append hblank).append ihas
  | name h => exact isInner_name h
  | call h _ ih =>
    obtain ⟨hinner, c, hhead, hc⟩ := isInner_name h
    refine ⟨(hinner.append hblank).append ih, c, ?_, hc⟩
    rw [String.toList_append, String.toList_append, List.append_assoc, List.head?_append, hhead]
    rfl
  | echo h =>
    exact ⟨(isInner_of_all _ (by decide)).append (isInner_redirection h), 'e', by simp, by decide⟩
  | prints _ ih => exact ih
  | line _ h ih =>
    have hline := ((isInner_of_all "echo " (by decide)).append ih.isInner).append
      (isInner_redirection h)
    exact ⟨hline, 'e', by simp, by decide⟩
  | lines _ h _ ihv iht =>
    have hline := ((isInner_of_all "echo " (by decide)).append ihv.isInner).append
      (isInner_redirection h)
    exact ⟨(hline.append (isInner_of_all _ (by decide))).append iht.1, 'e', by simp, by decide⟩
  | comparison ho _ _ ihl ihr =>
    have hleft := ((isInner_of_all "[ " (by decide)).append ihl.isInner).append hblank
    have hright := (((hleft.append (isInner_testOperator ho)).append hblank).append ihr.isInner)
    exact hright.append (isInner_of_all " ]" (by decide))
  | nonzero _ ih =>
    exact ((isInner_of_all _ (by decide)).append ih.isInner).append (isInner_of_all _ (by decide))
  | truthy _ ih =>
    have hword := ih.isInner
    have hempty := ((isInner_of_all "[ -n " (by decide)).append hword).append
      (isInner_of_all " ] && [ " (by decide))
    have hfalse := (hempty.append hword).append (isInner_of_all " != false ] && [ " (by decide))
    have hzero := (hfalse.append hword).append (isInner_of_all " != 0 ] && [ " (by decide))
    exact (hzero.append hword).append (isInner_of_all " != null ]" (by decide))
  | constant b => cases b <;> exact isInner_of_all _ (by decide)
  | status _ ih => exact ih.1
  | logical op _ _ ihl ihr =>
    exact (((ihl.append hblank).append (isInner_of_all _ (by cases op <;> decide))).append
      hblank).append ihr
  | negated _ ih => exact (isInner_of_all _ (by decide)).append ih
  | braced _ ih =>
    exact ((isInner_of_all _ (by decide)).append ih).append (isInner_of_all _ (by decide))

/-- A word is a closed one: with nothing open around it, it leaves nothing
open behind it. -/
theorem IsWhole.isClosedWord {text : String} (h : IsWhole text) : IsClosedWord text := by
  obtain ⟨bare, hbare, hlex⟩ := h.passes [] (by simp)
  exact ⟨h.nonempty, bare, hlex [], hbare⟩

end ScriptToShell.Shell

namespace ScriptToShell.Expr

open Shell

/-- **A value is one closed word**, and so is an argument, whether it is
quoted or a number that stands bare. -/
theorem value_isClosedWord (target : Target) (e : Expr)
    (hnames : ∀ name ∈ e.names, isName name = true) :
    (∀ word, e.value target = .ok word → IsClosedWord word)
      ∧ ∀ word, e.argument target = .ok word → IsClosedWord word := by
  have hpositions := forall_names.1 hnames
  refine ⟨fun word hword => ?_, fun word hword => ?_⟩
  · have hwhole : IsWhole word := (phrase_value hpositions hword).holds
    exact hwhole.isClosedWord
  · have hwhole : IsWhole word := (phrase_argument hpositions hword).holds
    exact hwhole.isClosedWord

/-- A comparison with a sum of what two commands print, one of which gets a
bare number and the other one a text full of operators. -/
def nestedWord : Expr :=
  .binary .less
    (.binary .add
      (.call (.member (.identifier "console" .nowhere) "log" .nowhere)
        [.literal (.string "a'; b) #") .nowhere, .member (.metaProperty "import" "meta" .nowhere)
          "dirname" .nowhere] .nowhere)
      (.call (.identifier "count" .nowhere) [.literal (.number "-1.5e3") .nowhere] .nowhere)
      .nowhere)
    (.not (.identifier "limit" .nowhere) .nowhere) .nowhere

theorem nestedWord_isClosedWord :
    (∀ name ∈ nestedWord.names, isName name = true)
      ∧ ∃ word, nestedWord.value .posix = .ok word ∧ IsClosedWord word := by
  have hnames : ∀ name ∈ nestedWord.names, isName name = true := by decide
  obtain ⟨word, hword⟩ : ∃ word, nestedWord.value .posix = .ok word := ⟨_, rfl⟩
  exact ⟨hnames, word, hword, (value_isClosedWord .posix nestedWord hnames).1 word hword⟩

end ScriptToShell.Expr
