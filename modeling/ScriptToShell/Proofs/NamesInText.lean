import ScriptToShell.Proofs.Inline
import ScriptToShell.Proofs.Spelling

/-!
# The names in a script

A script is text, and so the names in it are found by reading it. A line
introduces a name if it begins with `name=`, `local name=` or `name() {`, and a
name is expanded wherever `"$name"` stands. `namesIn` collects both, from any
text and without regard to where the text comes from. A name ends at a
blank, a quote, a parenthesis or an equality sign, and whatever stands before
that is taken for the name, be it one for a shell or not.

The names in a text are those in its lines, so they do not change when lines
are indented, when blank lines come and go, and when lines are joined to a
script (`mem_namesIn_script`).
-/

namespace ScriptToShell.Shell

open Emit Text

/-! ## Reading names -/

/-- Whether a character ends the name before it. -/
def endsName (c : Char) : Bool := [' ', '\t', '\n', '"', '=', '(', ')'].contains c

/-- The characters at the front of a text that may be a name. -/
def nameAt (cs : List Char) : List Char := cs.takeWhile (!endsName ·)

/-- What stands behind them. -/
def behindName (cs : List Char) : List Char := cs.dropWhile (!endsName ·)

/-- **The name that a line introduces**: one that is assigned or defined, or
one that is bound. -/
def introduced? (line : List Char) : Option String :=
  let rest := behindName line
  if rest.head? = some '=' ∨ "() \x7b".toList <+: rest then some (String.ofList (nameAt line))
  else if nameAt line = "local".toList ∧ rest.head? = some ' '
      ∧ (behindName rest.tail).head? = some '=' then some (String.ofList (nameAt rest.tail))
  else none

/-- **The name that is expanded at the front of a text.** A digit starts the
number of an argument, which is no name. -/
def expansion? : List Char → Option String
  | '"' :: '$' :: cs =>
    if (behindName cs).head? = some '"' ∧ cs.head?.all (!·.isDigit) = true then
      some (String.ofList (nameAt cs))
    else none
  | _ => none

/-- The names that are expanded in a text. -/
def expanded : List Char → List String
  | [] => []
  | c :: cs => (expansion? (c :: cs)).toList ++ expanded cs

/-- Whether a character indents a line. -/
def isIndent (c : Char) : Bool := c = ' ' || c = '\t'

/-- The names in a line. -/
def namesOfLine (line : List Char) : List String :=
  (introduced? (line.dropWhile isIndent)).toList ++ expanded line

/-- **The names in a text.** -/
def namesIn (text : String) : List String := (pieces text.toList).flatMap namesOfLine

/-! ## Where a name ends -/

section NameAt

variable {name cs : List Char} {c : Char}

theorem nameAt_append_cons (hname : ∀ c ∈ name, endsName c = false) (hc : endsName c = true) :
    nameAt (name ++ c :: cs) = name := by
  rw [nameAt, List.takeWhile_append_of_pos fun c hc => by simp [hname c hc],
    List.takeWhile_cons_of_neg (by simp [hc]), List.append_nil]

theorem behindName_append_cons (hname : ∀ c ∈ name, endsName c = false) (hc : endsName c = true) :
    behindName (name ++ c :: cs) = c :: cs := by
  rw [behindName, List.dropWhile_append_of_pos fun c hc => by simp [hname c hc],
    List.dropWhile_cons_of_neg (by simp [hc])]

theorem behindName_of_forall (hname : ∀ c ∈ name, endsName c = false) : behindName name = [] := by
  have happend : (name ++ []).dropWhile (!endsName ·) = [] :=
    List.dropWhile_append_of_pos fun c hc => by simp [hname c hc]
  rwa [List.append_nil] at happend

theorem nameAt_of_forall (hname : ∀ c ∈ name, endsName c = false) : nameAt name = name := by
  have happend : (name ++ []).takeWhile (!endsName ·) = name ++ [] :=
    List.takeWhile_append_of_pos fun c hc => by simp [hname c hc]
  rwa [List.append_nil] at happend

/-- A text is a name, or a name and what ends it. -/
theorem exists_name (cs : List Char) :
    ∃ name, (∀ c ∈ name, endsName c = false)
      ∧ (cs = name ∨ ∃ c rest, endsName c = true ∧ cs = name ++ c :: rest) := by
  refine ⟨nameAt cs, fun c hc => by simpa using List.all_eq_true.1 List.all_takeWhile c hc, ?_⟩
  have hsplit : nameAt cs ++ behindName cs = cs := List.takeWhile_append_dropWhile
  cases hbehind : behindName cs with
  | nil =>
    rw [hbehind, List.append_nil] at hsplit
    exact .inl hsplit.symm
  | cons c rest =>
    have hends := List.head?_dropWhile_not (!endsName ·) cs
    rw [← behindName, hbehind] at hends
    rw [hbehind] at hsplit
    exact .inr ⟨c, rest, by simpa using hends, hsplit.symm⟩

end NameAt

/-! ## Names that are expanded -/

theorem expansion?_eq_some_iff {name : String} {cs : List Char} :
    expansion? cs = some name ↔ ∃ rest, cs = '"' :: '$' :: rest
      ∧ (behindName rest).head? = some '"' ∧ rest.head?.all (!·.isDigit) = true
      ∧ name = String.ofList (nameAt rest) := by
  constructor
  · intro h
    unfold expansion? at h
    split at h
    · rename_i rest
      split at h
      · rename_i hends
        exact ⟨rest, rfl, hends.1, hends.2, (Option.some.inj h).symm⟩
      · cases h
    · cases h
  · rintro ⟨rest, rfl, hquote, hdigit, rfl⟩
    rw [expansion?, if_pos ⟨hquote, hdigit⟩]

/-- Where a name is expanded. -/
theorem mem_expanded_iff {name : String} {cs : List Char} :
    name ∈ expanded cs ↔ ∃ before rest, cs = before ++ '"' :: '$' :: rest
      ∧ (behindName rest).head? = some '"' ∧ rest.head?.all (!·.isDigit) = true
      ∧ name = String.ofList (nameAt rest) := by
  induction cs with
  | nil => simp [expanded]
  | cons c cs ih =>
    rw [expanded, List.mem_append, ih, Option.mem_toList, expansion?_eq_some_iff]
    constructor
    · rintro (⟨rest, heq, hrest⟩ | ⟨before, rest, rfl, hrest⟩)
      · exact ⟨[], rest, heq, hrest⟩
      · exact ⟨c :: before, rest, rfl, hrest⟩
    · rintro ⟨before, rest, heq, hrest⟩
      cases before with
      | nil => exact .inl ⟨rest, heq, hrest⟩
      | cons b before => exact .inr ⟨before, rest, (List.cons.inj heq).2, hrest⟩

theorem expanded_of_not_mem {cs : List Char} (h : '"' ∉ cs) : expanded cs = [] := by
  refine List.eq_nil_iff_forall_not_mem.2 fun name hname => ?_
  obtain ⟨before, rest, rfl, -⟩ := mem_expanded_iff.1 hname
  exact h (by simp)

/-- Nothing is expanded in what indents a line. -/
theorem expanded_append_of_not_mem {cs : List Char} (h : '"' ∉ cs) (ds : List Char) :
    expanded (cs ++ ds) = expanded ds := by
  induction cs with
  | nil => rfl
  | cons c cs ih =>
    rw [List.mem_cons, not_or] at h
    have hnone : expansion? (c :: (cs ++ ds)) = none := by
      refine Option.eq_none_iff_forall_ne_some.2 fun name hname => ?_
      obtain ⟨rest, heq, -⟩ := expansion?_eq_some_iff.1 hname
      exact h.1 (List.cons.inj heq).1.symm
    rw [List.cons_append, expanded, hnone, ih h.2]
    rfl

/-- A line break ends a name, so nothing is expanded across it. -/
theorem expansion?_append_break (cs ds : List Char) :
    expansion? (cs ++ '\n' :: ds) = expansion? cs := by
  have hends : endsName '\n' = true := by decide
  by_cases hfront : ∃ rest, cs = '"' :: '$' :: rest
  · obtain ⟨rest, rfl⟩ := hfront
    rw [List.cons_append, List.cons_append, expansion?, expansion?]
    obtain ⟨name, hname, rfl | ⟨c, more, hc, rfl⟩⟩ := exists_name rest
    · -- the name is not finished, and the break is no quote
      rw [behindName_append_cons hname hends, behindName_of_forall hname]
      rfl
    · rw [List.append_assoc, List.cons_append, behindName_append_cons hname hc,
        behindName_append_cons hname hc, nameAt_append_cons hname hc, nameAt_append_cons hname hc]
      cases name <;> rfl
  · have hnone : expansion? cs = none := by
      refine Option.eq_none_iff_forall_ne_some.2 fun name hname => ?_
      obtain ⟨rest, heq, -⟩ := expansion?_eq_some_iff.1 hname
      exact hfront ⟨rest, heq⟩
    rw [hnone, Option.eq_none_iff_forall_ne_some]
    intro name hname
    obtain ⟨rest, heq, -⟩ := expansion?_eq_some_iff.1 hname
    rcases cs with _ | ⟨c, _ | ⟨d, more⟩⟩
    · cases heq
    · cases heq
    · cases heq
      exact hfront ⟨more, rfl⟩

theorem expanded_append_break (cs ds : List Char) :
    expanded (cs ++ '\n' :: ds) = expanded cs ++ expanded ds := by
  induction cs with
  | nil => rfl
  | cons c cs ih =>
    rw [List.cons_append, expanded, expanded, ih, List.append_assoc, ← List.cons_append,
      expansion?_append_break]

/-! ## Names that are introduced -/

section Introduced

variable {name rest : List Char} {c : Char}

theorem introduced?_append_cons (hname : ∀ c ∈ name, endsName c = false) (hc : endsName c = true) :
    introduced? (name ++ c :: rest)
      = if c = '=' ∨ "() \x7b".toList <+: c :: rest then some (String.ofList name)
        else if name = "local".toList ∧ c = ' ' ∧ (behindName rest).head? = some '=' then
          some (String.ofList (nameAt rest))
        else none := by
  unfold introduced?
  simp only [behindName_append_cons hname hc, nameAt_append_cons hname hc, List.head?_cons,
    List.tail_cons, Option.some.injEq]

theorem introduced?_of_forall (hname : ∀ c ∈ name, endsName c = false) :
    introduced? name = none := by
  unfold introduced?
  simp [behindName_of_forall hname]

/-- A line that begins with any word but `local` and goes on with a blank
introduces no name. -/
theorem introduced?_word (hname : ∀ c ∈ name, endsName c = false) (hlocal : name ≠ "local".toList)
    (rest : List Char) : introduced? (name ++ ' ' :: rest) = none := by
  rw [introduced?_append_cons hname (by decide), if_neg (by simp),
    if_neg fun h => hlocal h.1]

theorem prefix_append_break {cs ds : List Char} (hname : '\n' ∉ name) :
    name <+: cs ++ '\n' :: ds ↔ name <+: cs := by
  refine ⟨?_, fun h => h.trans (List.prefix_append _ _)⟩
  rintro ⟨rest, hrest⟩
  rcases List.append_eq_append_iff.1 hrest with ⟨as, rfl, -⟩ | ⟨bs, rfl, hbs⟩
  · exact List.prefix_append _ _
  · cases bs with
    | nil => simp
    | cons b bs =>
      obtain ⟨rfl, -⟩ := List.cons.inj hbs
      exact absurd (by simp) hname

theorem head?_behindName_append_break (cs ds : List Char) :
    (behindName (cs ++ '\n' :: ds)).head? = some '=' ↔ (behindName cs).head? = some '=' := by
  obtain ⟨name, hname, rfl | ⟨c, more, hc, rfl⟩⟩ := exists_name cs
  · rw [behindName_append_cons hname (by decide), behindName_of_forall hname]
    simp
  · rw [List.append_assoc, List.cons_append, behindName_append_cons hname hc,
      behindName_append_cons hname hc]
    rfl

theorem nameAt_append_break (cs ds : List Char) : nameAt (cs ++ '\n' :: ds) = nameAt cs := by
  obtain ⟨name, hname, rfl | ⟨c, more, hc, rfl⟩⟩ := exists_name cs
  · rw [nameAt_append_cons hname (by decide), nameAt_of_forall hname]
  · rw [List.append_assoc, List.cons_append, nameAt_append_cons hname hc,
      nameAt_append_cons hname hc]

/-- Of a text, the first line counts. -/
theorem introduced?_append_break (cs ds : List Char) :
    introduced? (cs ++ '\n' :: ds) = introduced? cs := by
  obtain ⟨name, hname, rfl | ⟨c, more, hc, rfl⟩⟩ := exists_name cs
  · rw [introduced?_append_cons hname (by decide), introduced?_of_forall hname]
    simp
  · rw [List.append_assoc, List.cons_append, introduced?_append_cons hname hc,
      introduced?_append_cons hname hc, ← List.cons_append]
    have hbreak : '\n' ∉ "() \x7b".toList := by decide
    simp only [prefix_append_break hbreak, head?_behindName_append_break, nameAt_append_break]

/-- What indents the first line of a text indents the text. -/
theorem dropWhile_isIndent_append_break (cs ds : List Char) :
    (cs ++ '\n' :: ds).dropWhile isIndent = cs.dropWhile isIndent ++ '\n' :: ds := by
  rw [List.dropWhile_append]
  split
  · rename_i hempty
    rw [List.isEmpty_iff.1 hempty]
    rfl
  · rfl

end Introduced

/-! ## Names of lines -/

/-- A blank line has no names. -/
theorem namesOfLine_of_allBlank {line : List Char} (h : allBlank line = true) :
    namesOfLine line = [] := by
  have hblank : ∀ c ∈ line, isBlank c = true := List.all_eq_true.1 h
  have hnone : ∀ c, isBlank c = false → c ∉ line := by
    intro c hc hmem
    rw [hblank c hmem] at hc
    cases hc
  have hquote := hnone '"' (by decide)
  have hlocal := hnone 'l' (by decide)
  have hequal := hnone '=' (by decide)
  have hparen := hnone '(' (by decide)
  rw [namesOfLine, expanded_of_not_mem hquote, List.append_nil]
  have hsub : ∀ c ∈ line.dropWhile isIndent, c ∈ line := fun c hc =>
    (List.dropWhile_sublist _).mem hc
  generalize line.dropWhile isIndent = cs at hsub
  obtain ⟨name, hname, rfl | ⟨c, more, hc, rfl⟩⟩ := exists_name cs
  · rw [introduced?_of_forall hname]
    rfl
  · rw [introduced?_append_cons hname hc, if_neg, if_neg]
    · rfl
    · rintro ⟨rfl, -⟩
      exact hlocal (hsub 'l' (by simp))
    · rintro (rfl | hbegins)
      · exact hequal (hsub '=' (by simp))
      · have hmem : '(' ∈ c :: more := hbegins.subset (by decide)
        exact hparen (hsub '(' (List.mem_append_right name hmem))

/-- The lines that are not blank have all the names. -/
theorem flatMap_namesOfLine_code (lines : List (List Char)) :
    (code lines).flatMap namesOfLine = lines.flatMap namesOfLine := by
  induction lines with
  | nil => rfl
  | cons line lines ih =>
    unfold code at ih ⊢
    rw [List.filter_cons, List.flatMap_cons]
    split
    · rw [List.flatMap_cons, ih]
    · rename_i hblank
      rw [namesOfLine_of_allBlank (by simpa using hblank), ih]
      rfl

theorem mem_indentation {unit : Indent} {depth : Nat} {c : Char}
    (h : c ∈ (indentation unit depth).toList) : c = ' ' ∨ c = '\t' := by
  cases unit with
  | spaces n =>
    rw [indentation, String.toList_ofList] at h
    exact .inl (List.eq_of_mem_replicate h)
  | tabs =>
    rw [indentation, String.toList_ofList] at h
    exact .inr (List.eq_of_mem_replicate h)

theorem namesOfLine_append_indent {indent line : List Char}
    (h : ∀ c ∈ indent, c = ' ' ∨ c = '\t') : namesOfLine (indent ++ line) = namesOfLine line := by
  have hindent : ∀ c ∈ indent, isIndent c = true := fun c hc => by
    rcases h c hc with rfl | rfl <;> rfl
  have hquote : '"' ∉ indent := fun hmem => by
    rcases h '"' hmem with heq | heq <;> exact absurd heq (by decide)
  rw [namesOfLine, namesOfLine, List.dropWhile_append_of_pos hindent,
    expanded_append_of_not_mem hquote]

theorem pieces_append_of_not_mem {cs ds p : List Char} {ps : List (List Char)} (h : '\n' ∉ cs)
    (hds : pieces ds = p :: ps) : pieces (cs ++ ds) = (cs ++ p) :: ps := by
  induction cs with
  | nil => exact hds
  | cons c cs ih =>
    rw [List.mem_cons, not_or] at h
    exact pieces_cons (Ne.symm h.1) (ih h.2)

/-- **Indentation has no names** and takes none away. -/
@[simp] theorem namesIn_indentLine (unit : Indent) (line : String) :
    namesIn (indentLine unit line) = namesIn line := by
  unfold indentLine
  split
  · rfl
  · obtain ⟨p, ps, hps⟩ := List.exists_cons_of_ne_nil (pieces_ne_nil line.toList)
    have hbreak : '\n' ∉ (indentation unit 1).toList := fun hmem => by
      rcases mem_indentation hmem with heq | heq <;> exact absurd heq (by decide)
    rw [namesIn, namesIn, String.toList_append, pieces_append_of_not_mem hbreak hps, hps,
      List.flatMap_cons, List.flatMap_cons,
      namesOfLine_append_indent fun c hc => mem_indentation hc]

/-! ## Names of several lines -/

/-- **The names in a list of lines.** -/
def namesInAll (lines : List String) : List String := lines.flatMap namesIn

@[simp] theorem namesInAll_nil : namesInAll [] = [] := rfl

@[simp] theorem namesInAll_cons (line : String) (lines : List String) :
    namesInAll (line :: lines) = namesIn line ++ namesInAll lines := List.flatMap_cons

@[simp] theorem namesInAll_append (lines lines' : List String) :
    namesInAll (lines ++ lines') = namesInAll lines ++ namesInAll lines' := List.flatMap_append

@[simp] theorem namesInAll_indentLines (unit : Indent) (lines : List String) :
    namesInAll (indentLines unit lines) = namesInAll lines := by
  unfold namesInAll indentLines
  simp [List.flatMap_map]

theorem namesIn_joinWith (lines : List String) :
    namesIn (joinWith "\n" lines) = namesInAll lines := by
  by_cases hempty : lines = []
  · rw [hempty]
    rfl
  · rw [namesIn, pieces_joinWith hempty, List.flatMap_assoc]
    rfl

theorem mem_of_mem_pieces {cs p : List Char} {c : Char} (hp : p ∈ pieces cs) (hc : c ∈ p) :
    c ∈ cs := by
  induction cs generalizing p with
  | nil =>
    obtain rfl : p = [] := List.mem_singleton.1 hp
    cases hc
  | cons d cs ih =>
    by_cases hbreak : d = '\n'
    · subst hbreak
      rcases List.mem_cons.1 hp with rfl | hmem
      · cases hc
      · exact List.mem_cons_of_mem _ (ih hmem hc)
    · obtain ⟨q, qs, hqs⟩ := List.exists_cons_of_ne_nil (pieces_ne_nil cs)
      rw [pieces_cons hbreak hqs] at hp
      rw [hqs] at ih
      rcases List.mem_cons.1 hp with rfl | hmem
      · rcases List.mem_cons.1 hc with rfl | hc
        · exact List.mem_cons_self
        · exact List.mem_cons_of_mem _ (ih List.mem_cons_self hc)
      · exact List.mem_cons_of_mem _ (ih (List.mem_cons_of_mem q hmem) hc)

theorem namesInAll_of_blank {lines : List String} (h : ∀ line ∈ lines, isBlankLine line = true) :
    namesInAll lines = [] := by
  refine List.flatMap_eq_nil_iff.2 fun line hline => ?_
  refine List.flatMap_eq_nil_iff.2 fun p hp => namesOfLine_of_allBlank ?_
  exact List.all_eq_true.2 fun c hc => List.all_eq_true.1 (h line hline) c (mem_of_mem_pieces hp hc)

theorem namesInAll_trimBlank (lines : List String) :
    namesInAll (trimBlank lines) = namesInAll lines := by
  -- lines are cut off at one end, so the rest has all the names
  have hstart : ∀ lines : List String,
      namesInAll (lines.dropWhile isBlankLine) = namesInAll lines := by
    intro lines
    have hblank := namesInAll_of_blank (List.all_eq_true.1 (List.all_takeWhile (l := lines)))
    conv_rhs => rw [← List.takeWhile_append_dropWhile (p := isBlankLine) (l := lines)]
    rw [namesInAll_append, hblank, List.nil_append]
  have hend : namesInAll (lines.reverse.dropWhile isBlankLine).reverse = namesInAll lines := by
    have hblank : ∀ line ∈ (lines.reverse.takeWhile isBlankLine).reverse,
        isBlankLine line = true := fun line hline =>
      List.all_eq_true.1 List.all_takeWhile line (List.mem_reverse.1 hline)
    conv_rhs => rw [← List.reverse_reverse lines,
      ← List.takeWhile_append_dropWhile (p := isBlankLine) (l := lines.reverse)]
    rw [List.reverse_append, namesInAll_append, namesInAll_of_blank hblank, List.append_nil]
  rw [trimBlank, hstart, hend]

/-- The body of a compound command has the names of its lines. -/
@[simp] theorem namesInAll_body (unit : Indent) (lines : List String) :
    namesInAll (body unit lines) = namesInAll lines := by
  have hnothing : namesInAll [":"] = [] := by decide
  unfold body
  split
  · rename_i hnil
    rw [namesInAll_indentLines, hnothing, ← namesInAll_trimBlank, hnil]
    rfl
  · rw [namesInAll_indentLines, namesInAll_trimBlank]

/-- Where no line ends in a carriage return, at most an empty line at the end
is lost. -/
theorem exists_linesOfPieces_append {ps : List (List Char)} (h : ∀ p ∈ ps, '\r' ∉ p) :
    ∃ rest, ps = linesOfPieces ps ++ rest ∧ ∀ p ∈ rest, p = [] := by
  induction ps with
  | nil => exact ⟨[], rfl, List.forall_mem_nil _⟩
  | cons p ps ih =>
    rw [List.forall_mem_cons] at h
    cases ps with
    | nil =>
      cases p with
      | nil => exact ⟨[[]], rfl, List.forall_mem_singleton.2 rfl⟩
      | cons c cs => exact ⟨[], rfl, List.forall_mem_nil _⟩
    | cons q qs =>
      have hreturn : dropReturn p = p := by
        unfold dropReturn
        split
        · rename_i cs hreverse
          exact absurd (List.mem_reverse.1 (hreverse ▸ List.mem_cons_self)) h.1
        · rfl
      obtain ⟨rest, hrest, hempty⟩ := ih h.2
      refine ⟨rest, ?_, hempty⟩
      show _ = dropReturn p :: linesOfPieces (q :: qs) ++ rest
      rw [hreturn, List.cons_append, ← hrest]

/-- The names of a text are those of the lines that it is cut into. -/
theorem namesInAll_splitText {text : String} (h : '\r' ∉ text.toList) :
    namesInAll (splitText text) = namesIn text := by
  unfold splitText
  split
  · have hreturn : ∀ p ∈ pieces text.toList, '\r' ∉ p := fun p hp hmem =>
      h (mem_of_mem_pieces hp hmem)
    obtain ⟨rest, hrest, hempty⟩ := exists_linesOfPieces_append hreturn
    have hlines : ∀ line ∈ Text.lines text.toList, '\n' ∉ line := fun line hline =>
      not_mem_of_mem_pieces (hrest ▸ List.mem_append_left rest hline)
    have hnone : rest.flatMap namesOfLine = [] := List.flatMap_eq_nil_iff.2 fun p hp => by
      rw [hempty p hp]
      rfl
    rw [namesIn, hrest, List.flatMap_append, hnone, List.append_nil, namesInAll, List.flatMap_map]
    refine List.flatMap_congr fun line hline => ?_
    rw [namesIn, String.toList_ofList, pieces_of_not_mem (hlines line hline),
      List.flatMap_singleton]
  · rw [namesInAll_cons, namesInAll_nil, List.append_nil]

/-! ## Names of scripts -/

theorem namesIn_append_break (s t : String) :
    namesIn (s ++ "\n" ++ t) = namesIn s ++ namesIn t := by
  have hbreak : (s ++ "\n" ++ t).toList = s.toList ++ '\n' :: t.toList := by simp
  rw [namesIn, hbreak, pieces_append_break, List.flatMap_append]
  rfl

/-- **The names in a script** are those in its chunks. -/
theorem namesIn_script (options : Options) (chunks : List String) :
    namesIn (script options chunks) = namesInAll chunks := by
  have hchunks : namesIn (joinChunks chunks) = namesInAll chunks := by
    rw [namesIn, ← flatMap_namesOfLine_code, code_joinChunks, chunksCode, flatMap_namesOfLine_code,
      List.flatMap_assoc]
    rfl
  have hempty : namesIn "" = [] := by decide
  have hshebang : namesIn options.target.shebang = [] := by
    cases options.target <;> decide
  have hhead : namesIn (options.target.shebang ++ "\n") = [] := by
    rw [← String.append_empty (s := _ ++ "\n"), namesIn_append_break, hshebang, hempty]
    rfl
  rw [← hchunks]
  unfold script
  by_cases hbody : joinChunks chunks = ""
  · simp only [hbody, if_true]
    split
    · rw [hhead, hempty]
    · rfl
  · simp only [hbody, if_false]
    rw [← String.append_empty (s := _ ++ "\n"), namesIn_append_break, hempty, List.append_nil]
    split
    · rw [namesIn_append_break, hhead, List.nil_append]
    · rw [String.empty_append]

end ScriptToShell.Shell
