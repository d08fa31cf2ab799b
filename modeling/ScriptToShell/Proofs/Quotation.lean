import ScriptToShell.Emit.Expression

/-!
# How a shell takes quotes apart

Before a shell looks for operators in a line it has to know which
characters may be operators at all. A character between double quotes or
inside a substitution `$( )` never is, and the two nest in each other: a
substitution may stand between quotes and has quotes of its own again.

`scan` walks through a text once. It keeps the stack of what is open
(`Frame`) and turns each character into a **glyph**: an operator or a
blank if the character acts as one where it stands, and plain text
otherwise. What this fragment of the shell language has no use for – a
backslash, a backquote, and outside double quotes single quotes, comments
and subshells – is refused rather than guessed at, so a text that can be
scanned has been understood.

A **word** is a text that is plain from end to end, both at the top of a
line and inside a substitution (`IsWord`). Words are what values are
written as, and the lemmas at the end build them.
-/

namespace ScriptToShell.Shell

/-! ## Glyphs -/

/-- **What is open** around a character. -/
inductive Frame where
  /-- A pair of double quotes. -/
  | quotes
  /-- A substitution, or a pair of parentheses inside one. -/
  | parens
deriving DecidableEq, Repr, Inhabited

/-- What the character before changes about the next one. -/
inductive Mark where
  | plain
  /-- A dollar: a parenthesis opens a substitution. -/
  | dollar
  /-- A redirection: an ampersand belongs to it. -/
  | redirection
deriving DecidableEq, Repr, Inhabited

/-- **Where a character stands**: what is open, the innermost first, and
what the character before says. -/
structure Context where
  /-- What is open. -/
  frames : List Frame
  /-- What the character before says. -/
  mark : Mark := .plain
deriving DecidableEq, Repr, Inhabited

/-- **A character as a shell takes it** where it stands. -/
inductive Glyph where
  | text (c : Char)
  | blank
  | semicolon
  | ampersand
  | bar
deriving DecidableEq, Repr, Inhabited

/-- The glyph of a character between double quotes. -/
def quotedGlyph (frames : List Frame) (mark : Mark) (c : Char) : Option (Glyph × Context) :=
  if c = '\\' ∨ c = '\x60' then none
  else if c = '"' then some (.text c, ⟨frames, .plain⟩)
  else if c = '$' then some (.text c, ⟨.quotes :: frames, .dollar⟩)
  else if c = '(' ∧ mark = .dollar then some (.text c, ⟨.parens :: .quotes :: frames, .plain⟩)
  else some (.text c, ⟨.quotes :: frames, .plain⟩)

/-- The glyph of a character inside a substitution. Whether a dollar
stands before a parenthesis does not matter here. -/
def nestedGlyph (frames : List Frame) (c : Char) : Option (Glyph × Context) :=
  if c = '\\' ∨ c = '\x60' ∨ c = '\'' ∨ c = '#' then none
  else if c = '"' then some (.text c, ⟨.quotes :: .parens :: frames, .plain⟩)
  else if c = '(' then some (.text c, ⟨.parens :: .parens :: frames, .plain⟩)
  else if c = ')' then some (.text c, ⟨frames, .plain⟩)
  else some (.text c, ⟨.parens :: frames, .plain⟩)

/-- The glyph of a character that nothing is open around. -/
def bareGlyph (mark : Mark) (c : Char) : Option (Glyph × Context) :=
  if c = '\\' ∨ c = '\x60' ∨ c = '\'' ∨ c = '#' ∨ c = ')' ∨ c = '<' ∨ c = '\n' then none
  else if c = '"' then some (.text c, ⟨[.quotes], .plain⟩)
  else if c = '$' then some (.text c, ⟨[], .dollar⟩)
  else if c = '(' then if mark = .dollar then some (.text c, ⟨[.parens], .plain⟩) else none
  else if c = '>' then some (.text c, ⟨[], .redirection⟩)
  else if c = '&' then
    if mark = .redirection then some (.text c, ⟨[], .plain⟩) else some (.ampersand, ⟨[], .plain⟩)
  else if c = '|' then some (.bar, ⟨[], .plain⟩)
  else if c = ';' then some (.semicolon, ⟨[], .plain⟩)
  else if c = ' ' ∨ c = '\t' then some (.blank, ⟨[], .plain⟩)
  else some (.text c, ⟨[], .plain⟩)

/-- **The glyph of a character** and the context behind it; none if the
character is refused there. -/
def Context.step : Context → Char → Option (Glyph × Context)
  | ⟨[], mark⟩, c => bareGlyph mark c
  | ⟨.quotes :: frames, mark⟩, c => quotedGlyph frames mark c
  | ⟨.parens :: frames, _⟩, c => nestedGlyph frames c

/-- **The glyphs of a text** from a context, and the context behind it. -/
def scan (x : Context) : List Char → Option (List Glyph × Context)
  | [] => some ([], x)
  | c :: cs => do
    let (g, y) ← x.step c
    let (gs, z) ← scan y cs
    return (g :: gs, z)

/-- **The glyphs of a whole text**, in which everything is closed
again. -/
def glyphs? (text : String) : Option (List Glyph) :=
  match scan ⟨[], .plain⟩ text.toList with
  | some (gs, ⟨[], .plain⟩) => some gs
  | _ => none

theorem scan_append {x y z : Context} {cs ds : List Char} {gs hs : List Glyph}
    (hc : scan x cs = some (gs, y)) (hd : scan y ds = some (hs, z)) :
    scan x (cs ++ ds) = some (gs ++ hs, z) := by
  induction cs generalizing x gs with
  | nil =>
    cases hc
    exact hd
  | cons c cs ih =>
    rw [scan] at hc
    obtain ⟨⟨g, w⟩, hstep, hrest⟩ := Option.bind_eq_some_iff.1 hc
    obtain ⟨⟨gs', y'⟩, hcs, hpure⟩ := Option.bind_eq_some_iff.1 hrest
    cases hpure
    rw [List.cons_append, scan, hstep]
    show (scan w (cs ++ ds)).bind _ = _
    rw [ih hcs]
    rfl

/-! ## Texts that pass as they are -/

/-- **A text that is plain below the given frames** and leaves them as
they are. -/
def PlainBelow (frames : List Frame) (text : List Char) : Prop :=
  scan ⟨frames, .plain⟩ text = some (text.map .text, ⟨frames, .plain⟩)

@[simp] theorem plainBelow_nil (frames : List Frame) : PlainBelow frames [] := rfl

theorem PlainBelow.append {frames : List Frame} {s t : List Char} (hs : PlainBelow frames s)
    (ht : PlainBelow frames t) : PlainBelow frames (s ++ t) := by
  unfold PlainBelow
  rw [List.map_append]
  exact scan_append hs ht

/-- A text is plain if each of its characters is. -/
theorem plainBelow_of_forall {frames : List Frame} {text : List Char}
    (h : ∀ c ∈ text, PlainBelow frames [c]) : PlainBelow frames text := by
  induction text with
  | nil => exact plainBelow_nil frames
  | cons c cs ih =>
    rw [List.forall_mem_cons] at h
    exact h.1.append (ih h.2)

/-- Quotes around a text that is plain between them. -/
theorem plainBelow_quotes {frames : List Frame} {text : List Char}
    (hframes : frames.head? ≠ some .quotes) (h : PlainBelow (.quotes :: frames) text) :
    PlainBelow frames ('"' :: text ++ ['"']) := by
  have hopen : scan ⟨frames, .plain⟩ ['"'] = some ([.text '"'], ⟨.quotes :: frames, .plain⟩) := by
    rcases frames with _ | ⟨_ | _, frames⟩
    · rfl
    · exact absurd rfl hframes
    · rfl
  have hclose : scan ⟨.quotes :: frames, .plain⟩ ['"'] = some ([.text '"'], ⟨frames, .plain⟩) := rfl
  have hall := scan_append (scan_append hopen h) hclose
  unfold PlainBelow
  simpa using hall

/-- A substitution of a text that is plain inside it. -/
theorem plainBelow_substitution {frames : List Frame} {text : List Char}
    (h : PlainBelow (.parens :: frames) text) :
    PlainBelow frames ('$' :: '(' :: text ++ [')']) := by
  have hopen : scan ⟨frames, .plain⟩ ['$', '(']
      = some ([.text '$', .text '('], ⟨.parens :: frames, .plain⟩) := by
    rcases frames with _ | ⟨_ | _, frames⟩ <;> rfl
  have hclose : scan ⟨.parens :: frames, .plain⟩ [')'] = some ([.text ')'], ⟨frames, .plain⟩) := rfl
  have hall := scan_append (scan_append hopen h) hclose
  unfold PlainBelow
  simpa using hall

/-! ## Words -/

/-- The characters that mean something to a shell outside double
quotes. -/
def specialCharacters : List Char :=
  ['\\', '\x60', '\'', '#', '(', ')', '<', '>', '\n', '"', '$', '&', '|', ';', ' ', '\t']

/-- The characters that mean something to a shell between double quotes. -/
def specialQuoted : List Char := ['\\', '\x60', '"', '$']

/-- The characters that mean something to the scan inside a
substitution. -/
def specialNested : List Char := ['\\', '\x60', '\'', '#', '(', ')', '"']

/-- An ordinary character is plain outside double quotes. -/
theorem plainBelow_char {frames : List Frame} {c : Char} (hframes : frames.head? ≠ some .quotes)
    (hc : c ∉ specialCharacters) : PlainBelow frames [c] := by
  simp only [specialCharacters, List.mem_cons, List.not_mem_nil, or_false, not_or] at hc
  rcases frames with _ | ⟨_ | _, frames⟩
  · simp [PlainBelow, scan, Context.step, bareGlyph, hc]
  · exact absurd rfl hframes
  · simp [PlainBelow, scan, Context.step, nestedGlyph, hc]

theorem plainBelow_quoted {frames : List Frame} {c : Char} (hc : c ∉ specialQuoted) :
    PlainBelow (.quotes :: frames) [c] := by
  simp only [specialQuoted, List.mem_cons, List.not_mem_nil, or_false, not_or] at hc
  simp [PlainBelow, scan, Context.step, quotedGlyph, hc]

theorem plainBelow_nested {frames : List Frame} {c : Char} (hc : c ∉ specialNested) :
    PlainBelow (.parens :: frames) [c] := by
  simp only [specialNested, List.mem_cons, List.not_mem_nil, or_false, not_or] at hc
  simp [PlainBelow, scan, Context.step, nestedGlyph, hc]

/-- **A text that may stand inside a substitution**: all its quotes and
parentheses are closed. -/
def IsNested (text : String) : Prop := ∀ frames, PlainBelow (.parens :: frames) text.toList

/-- **A word**: a text that is plain at the top of a line as well as
inside a substitution. -/
structure IsWord (text : String) : Prop where
  /-- A word has a character. -/
  nonempty : text.toList ≠ []
  /-- Nothing in a word is an operator or a blank. -/
  plain : ∀ frames, frames.head? ≠ some .quotes → PlainBelow frames text.toList

theorem IsWord.nested {text : String} (h : IsWord text) : IsNested text :=
  fun frames => h.plain (.parens :: frames) (by simp)

theorem IsNested.append {s t : String} (hs : IsNested s) (ht : IsNested t) : IsNested (s ++ t) := by
  intro frames
  rw [String.toList_append]
  exact (hs frames).append (ht frames)

theorem isNested_of_all {text : String} (h : text.toList.all (· ∉ specialNested) = true) :
    IsNested text :=
  fun _ => plainBelow_of_forall fun c hc =>
    plainBelow_nested (of_decide_eq_true (List.all_eq_true.1 h c hc))

theorem isWord_of_forall {text : String} (hne : text.toList ≠ [])
    (h : ∀ c ∈ text.toList, c ∉ specialCharacters) : IsWord text :=
  ⟨hne, fun _ hframes => plainBelow_of_forall fun c hc => plainBelow_char hframes (h c hc)⟩

/-- **Whether a text has characters, and only ordinary ones.** -/
def isOrdinary (text : String) : Bool :=
  !text.toList.isEmpty && text.toList.all (· ∉ specialCharacters)

theorem isWord_of_isOrdinary {text : String} (h : isOrdinary text = true) : IsWord text := by
  rw [isOrdinary, Bool.and_eq_true, Bool.not_eq_true', List.isEmpty_eq_false_iff] at h
  exact isWord_of_forall h.1 fun c hc => of_decide_eq_true (List.all_eq_true.1 h.2 c hc)

/-- A text between double quotes is a word. -/
theorem isWord_quoted {text : String}
    (h : ∀ frames, PlainBelow (.quotes :: frames) text.toList) : IsWord ("\"" ++ text ++ "\"") where
  nonempty := by simp
  plain frames hframes := by
    have hquotes := plainBelow_quotes hframes (h frames)
    simpa using hquotes

/-- A substitution is a word. -/
theorem isWord_substitution {text : String} (h : IsNested text) : IsWord ("$(" ++ text ++ ")") where
  nonempty := by simp
  plain frames _ := by
    have hsubstitution := plainBelow_substitution (h frames)
    simpa using hsubstitution

/-- Parentheses inside a substitution. -/
theorem IsNested.parens {text : String} (h : IsNested text) : IsNested ("(" ++ text ++ ")") := by
  intro frames
  have hopen : scan ⟨.parens :: frames, .plain⟩ ['(']
      = some ([.text '('], ⟨.parens :: .parens :: frames, .plain⟩) := rfl
  have hclose : scan ⟨.parens :: .parens :: frames, .plain⟩ [')']
      = some ([.text ')'], ⟨.parens :: frames, .plain⟩) := rfl
  have hall := scan_append (scan_append hopen (h (.parens :: frames))) hclose
  unfold PlainBelow
  simpa using hall

/-! ## Names -/

/-- A character of a name after its first one. -/
def isNameChar (c : Char) : Bool := c.isAlphanum || c = '_'

/-- **Whether a text is the name** of a shell variable or function. -/
def isName (text : String) : Bool :=
  match text.toList with
  | [] => false
  | c :: cs => (c.isAlpha || c = '_') && cs.all isNameChar

theorem isNameChar_of_isName {text : String} (h : isName text = true) :
    text.toList ≠ [] ∧ ∀ c ∈ text.toList, isNameChar c = true := by
  unfold isName at h
  split at h
  · cases h
  · rename_i c cs htext
    rw [Bool.and_eq_true, List.all_eq_true] at h
    rw [htext, List.forall_mem_cons]
    refine ⟨List.cons_ne_nil c cs, ?_, h.2⟩
    simp only [isNameChar, Char.isAlphanum, Bool.or_eq_true] at h ⊢
    exact h.1.imp_left .inl

theorem not_special_of_isNameChar {c : Char} (h : isNameChar c = true) : c ∉ specialCharacters := by
  have hnone : specialCharacters.all (!isNameChar ·) = true := by decide
  intro hc
  have hfalse := List.all_eq_true.1 hnone c hc
  rw [h] at hfalse
  cases hfalse

theorem isWord_of_isName {text : String} (h : isName text = true) : IsWord text :=
  have hchars := isNameChar_of_isName h
  isWord_of_forall hchars.1 fun c hc => not_special_of_isNameChar (hchars.2 c hc)

/-- **The value of a variable is a word.** The dollar is remembered until
the name begins, which does not begin with a parenthesis. -/
theorem isWord_variable {name : String} (h : isName name = true) :
    IsWord ("\"$" ++ name ++ "\"") := by
  have hsplit : "\"$" ++ name = "\"" ++ ("$" ++ name) := by
    rw [← String.append_assoc]
    rfl
  rw [hsplit]
  refine isWord_quoted fun frames => ?_
  obtain ⟨hne, hchars⟩ := isNameChar_of_isName h
  obtain ⟨c, cs, hname⟩ := List.exists_cons_of_ne_nil hne
  rw [hname, List.forall_mem_cons] at hchars
  have hquoted : ∀ {d}, isNameChar d = true → d ∉ specialQuoted := fun hd hmem =>
    not_special_of_isNameChar hd ((by decide : specialQuoted ⊆ specialCharacters) hmem)
  have hfirst : PlainBelow (.quotes :: frames) ['$', c] := by
    have hc := not_special_of_isNameChar hchars.1
    simp only [specialCharacters, List.mem_cons, List.not_mem_nil, or_false, not_or] at hc
    simp [PlainBelow, scan, Context.step, quotedGlyph, hc]
  have hrest : PlainBelow (.quotes :: frames) cs :=
    plainBelow_of_forall fun d hd => plainBelow_quoted (hquoted (hchars.2 d hd))
  rw [String.toList_append, hname]
  exact hfirst.append hrest

end ScriptToShell.Shell
