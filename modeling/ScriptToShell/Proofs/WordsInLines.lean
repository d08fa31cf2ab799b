import ScriptToShell.Proofs.Inline
import ScriptToShell.Proofs.Surroundings

/-!
# Words in lines

On its way to a script, text is put between other texts, is cut at its line
ends, moved to the right, trimmed and joined again. A word survives all of it if
there is no line end in it and it is not blank (`Unbroken`): text is only cut at
line ends, and lines are only left out if they are blank. So there is a line
with the word after each step (`HasWord`), and the word is in the script
(`HasWord.script`).

Such words are the ones that variables and literals are written as.
-/

namespace ScriptToShell

open Emit Shell
open Text (pieces linesOfPieces dropReturn)

/-! ## Pieces and lines -/

namespace Text

/-- Text without a line feed goes to the first piece of what is behind it. -/
theorem pieces_append {word : List Char} (h : '\n' ∉ word) {cs p : List Char}
    {ps : List (List Char)} (hcs : pieces cs = p :: ps) :
    pieces (word ++ cs) = (word ++ p) :: ps := by
  induction word with
  | nil => exact hcs
  | cons c word ih =>
    rw [List.mem_cons, not_or] at h
    exact pieces_cons (Ne.symm h.1) (ih h.2)

/-- **A word without a line feed is in one of the pieces.** -/
theorem exists_piece_of_infix {word cs : List Char} (h : '\n' ∉ word) (hin : word <:+: cs) :
    ∃ p ∈ pieces cs, word <:+: p := by
  obtain ⟨before, after, rfl⟩ := hin
  rw [List.append_assoc]
  induction before with
  | nil =>
    obtain ⟨p, ps, hafter⟩ := List.exists_cons_of_ne_nil (pieces_ne_nil after)
    rw [List.nil_append, pieces_append h hafter]
    exact ⟨word ++ p, List.mem_cons_self, (List.prefix_append word p).isInfix⟩
  | cons c before ih =>
    obtain ⟨p, hp, hin⟩ := ih
    rw [List.cons_append]
    by_cases hbreak : c = '\n'
    · subst hbreak
      exact ⟨p, List.mem_cons_of_mem [] hp, hin⟩
    · obtain ⟨q, qs, hrest⟩ :=
        List.exists_cons_of_ne_nil (pieces_ne_nil (before ++ (word ++ after)))
      rw [hrest] at hp
      rw [pieces_cons hbreak hrest]
      rcases List.mem_cons.1 hp with rfl | hmem
      · exact ⟨c :: p, List.mem_cons_self, List.infix_cons hin⟩
      · exact ⟨p, List.mem_cons_of_mem _ hmem, hin⟩

theorem infix_unpieces {p : List Char} {ps : List (List Char)} (h : p ∈ ps) :
    p <:+: unpieces ps := by
  induction ps with
  | nil => cases h
  | cons q qs ih =>
    cases qs with
    | nil =>
      obtain rfl := List.mem_singleton.1 h
      exact List.infix_rfl
    | cons r rs =>
      show p <:+: q ++ '\n' :: unpieces (r :: rs)
      rcases List.mem_cons.1 h with rfl | hmem
      · exact (List.prefix_append _ _).isInfix
      · exact (ih hmem).trans ((List.suffix_cons _ _).trans (List.suffix_append _ _)).isInfix

theorem infix_dropReturn {word line : List Char} (hne : word ≠ []) (hreturn : '\r' ∉ word)
    (h : word <:+: line) : word <:+: dropReturn line := by
  unfold dropReturn
  split
  · rename_i cs hline
    rw [← List.reverse_reverse line, hline, List.reverse_cons, List.infix_concat_iff,
      List.suffix_concat_iff] at h
    rcases h with (hnil | ⟨start, rfl, -⟩) | hin
    · exact absurd hnil hne
    · exact absurd (List.mem_append_right start (List.mem_singleton_self '\r')) hreturn
    · exact hin
  · exact h

/-- What is cut off at the ends of lines is not part of a word. -/
theorem exists_line_of_piece {word p : List Char} {ps : List (List Char)} (hne : word ≠ [])
    (hreturn : '\r' ∉ word) (hp : p ∈ ps) (hin : word <:+: p) :
    ∃ line ∈ linesOfPieces ps, word <:+: line := by
  induction ps with
  | nil => cases hp
  | cons q qs ih =>
    cases qs with
    | nil =>
      obtain rfl := List.mem_singleton.1 hp
      have hnot : p.isEmpty = false := by
        rw [List.isEmpty_eq_false_iff]
        rintro rfl
        exact hne (List.infix_nil.1 hin)
      rw [linesOfPieces, hnot]
      exact ⟨p, List.mem_singleton_self p, hin⟩
    | cons r rs =>
      show ∃ line ∈ dropReturn q :: linesOfPieces (r :: rs), word <:+: line
      rcases List.mem_cons.1 hp with rfl | hmem
      · exact ⟨_, List.mem_cons_self, infix_dropReturn hne hreturn hin⟩
      · obtain ⟨line, hline, hin⟩ := ih hmem
        exact ⟨line, List.mem_cons_of_mem _ hline, hin⟩

end Text

/-! ## Words that lines do not break -/

namespace Shell

/-- **A word that lines do not break**: there is no line end in it, and it is
not blank. -/
structure Unbroken (word : String) : Prop where
  /-- It has no line feed. -/
  no_feed : '\n' ∉ word.toList
  /-- It has no carriage return. -/
  no_return : '\r' ∉ word.toList
  /-- Some character of it is no white space. -/
  visible : ∃ c ∈ word.toList, Text.isBlank c = false

theorem Unbroken.ne_nil {word : String} (h : Unbroken word) : word.toList ≠ [] :=
  let ⟨_, hc, _⟩ := h.visible
  List.ne_nil_of_mem hc

/-- **Lines that have a word**, unbroken and in one of them. -/
structure HasWord (word : String) (lines : List String) : Prop where
  /-- The word is not broken by lines. -/
  unbroken : Unbroken word
  /-- It is in a line. -/
  exists_line : ∃ line ∈ lines, word.toList <:+: line.toList

theorem hasWord_singleton {word text : String} :
    HasWord word [text] ↔ Unbroken word ∧ word.toList <:+: text.toList := by
  refine ⟨fun ⟨hword, line, hline, hin⟩ => ⟨hword, ?_⟩, fun ⟨hword, hin⟩ => ⟨hword, text, ?_, hin⟩⟩
  · rwa [List.mem_singleton.1 hline] at hin
  · exact List.mem_singleton_self text

theorem Unbroken.hasWord {word : String} (h : Unbroken word) : HasWord word [word] :=
  hasWord_singleton.2 ⟨h, List.infix_rfl⟩

namespace HasWord

variable {word text : String} {lines lines' : List String}

theorem mono (h : HasWord word lines) (hsub : lines ⊆ lines') : HasWord word lines' :=
  let ⟨line, hline, hin⟩ := h.exists_line
  ⟨h.unbroken, line, hsub hline, hin⟩

theorem of_mem (h : HasWord word [text]) (hmem : text ∈ lines) : HasWord word lines :=
  h.mono (List.forall_mem_singleton.2 hmem)

theorem append_left (h : HasWord word lines) (others : List String) :
    HasWord word (lines ++ others) := h.mono (List.subset_append_left _ _)

theorem append_right (h : HasWord word lines) (others : List String) :
    HasWord word (others ++ lines) := h.mono (List.subset_append_right _ _)

/-- A text with another one behind it. -/
theorem before (h : HasWord word [text]) (after : String) : HasWord word [text ++ after] := by
  obtain ⟨hword, hin⟩ := hasWord_singleton.1 h
  refine hasWord_singleton.2 ⟨hword, ?_⟩
  rw [String.toList_append]
  exact hin.trans (List.prefix_append _ _).isInfix

/-- A text with another one before it. -/
theorem behind (h : HasWord word [text]) (before : String) : HasWord word [before ++ text] := by
  obtain ⟨hword, hin⟩ := hasWord_singleton.1 h
  refine hasWord_singleton.2 ⟨hword, ?_⟩
  rw [String.toList_append]
  exact hin.trans (List.suffix_append _ _).isInfix

theorem bracedIf (h : HasWord word [text]) (needed : Bool) :
    HasWord word [bracedIf needed text] := by
  cases needed with
  | false => exact h
  | true => exact (h.behind _).before _

theorem joinWith (h : HasWord word lines) (separator : String) :
    HasWord word [Text.joinWith separator lines] := by
  obtain ⟨hword, line, hline, hin⟩ := h
  induction lines with
  | nil => cases hline
  | cons t ts ih =>
    cases ts with
    | nil =>
      obtain rfl := List.mem_singleton.1 hline
      exact hasWord_singleton.2 ⟨hword, hin⟩
    | cons u us =>
      show HasWord word [t ++ separator ++ Text.joinWith separator (u :: us)]
      rcases List.mem_cons.1 hline with rfl | hmem
      · exact ((hasWord_singleton.2 ⟨hword, hin⟩).before separator).before _
      · exact (ih hmem).behind _

theorem splitText (h : HasWord word [text]) : HasWord word (splitText text) := by
  unfold Emit.splitText
  split
  · obtain ⟨hword, hin⟩ := hasWord_singleton.1 h
    obtain ⟨p, hp, hin⟩ := Text.exists_piece_of_infix hword.no_feed hin
    obtain ⟨line, hline, hin⟩ :=
      Text.exists_line_of_piece hword.ne_nil hword.no_return hp hin
    refine ⟨hword, String.ofList line, List.mem_map_of_mem hline, ?_⟩
    rwa [String.toList_ofList]
  · exact h

theorem indentLines (h : HasWord word lines) (unit : Indent) :
    HasWord word (indentLines unit lines) := by
  obtain ⟨hword, line, hline, hin⟩ := h
  refine ⟨hword, indentLine unit line, List.mem_map_of_mem hline, ?_⟩
  unfold indentLine
  split
  · exact hin
  · rw [String.toList_append]
    exact hin.trans (List.suffix_append _ _).isInfix

/-- The line with the word is not blank. -/
theorem nonBlank (h : HasWord word lines) : HasWord word (nonBlank lines) := by
  obtain ⟨hword, line, hline, hin⟩ := h
  obtain ⟨c, hc, hblank⟩ := hword.visible
  have hnot : isBlankLine line = false := isBlankLine_of_mem (hin.subset hc) hblank
  exact ⟨hword, line, List.mem_filter.2 ⟨hline, by rw [hnot]; rfl⟩, hin⟩

theorem body (h : HasWord word lines) (unit : Indent) : HasWord word (body unit lines) := by
  have hsome : Emit.nonBlank lines ≠ [] := fun hnil => by
    obtain ⟨-, line, hline, -⟩ := hnil ▸ h.nonBlank
    cases hline
  rw [body_of_nonBlank_ne_nil unit hsome]
  have htrimmed := h.nonBlank
  rw [← nonBlank_trimBlank] at htrimmed
  exact (htrimmed.mono List.filter_sublist.subset).indentLines unit

theorem framed (h : HasWord word lines) (outermost : Bool) :
    HasWord word (framed outermost lines) := by
  cases outermost with
  | false => exact h
  | true => exact (h.append_right [""]).append_left [""]

/-- **A word of a chunk is in the script.** -/
theorem script {chunks : List String} (h : HasWord word chunks) (options : Options) :
    word.toList <:+: (script options chunks).toList := by
  obtain ⟨hword, chunk, hchunk, hin⟩ := h
  obtain ⟨p, hp, hin⟩ := Text.exists_piece_of_infix hword.no_feed hin
  obtain ⟨c, hc, hblank⟩ := hword.visible
  have hcode : p ∈ chunksCode chunks := by
    refine List.mem_filter.2 ⟨List.mem_flatMap.2 ⟨chunk, hchunk, hp⟩, ?_⟩
    rw [Bool.not_eq_true']
    refine eq_false_of_ne_true fun hall => ?_
    rw [List.all_eq_true.1 hall c (hin.subset hc)] at hblank
    cases hblank
  rw [← code_joinChunks] at hcode
  have hjoined := Text.infix_unpieces (List.mem_filter.1 hcode).1
  rw [Text.unpieces_pieces] at hjoined
  have hne : joinChunks chunks ≠ "" := fun hempty => by
    rw [hempty] at hjoined
    obtain rfl : p = [] := List.infix_nil.1 hjoined
    exact hword.ne_nil (List.infix_nil.1 hin)
  rw [toList_script options hne]
  exact ((hin.trans hjoined).trans (List.prefix_append _ _).isInfix).trans
    (List.suffix_append _ _).isInfix

end HasWord

/-! ## Variables, literals and numbers -/

theorem unbroken_quoted {text : String} (hfeed : '\n' ∉ text.toList)
    (hreturn : '\r' ∉ text.toList) : Unbroken ("\"" ++ text ++ "\"") where
  no_feed := by simpa using hfeed
  no_return := by simpa using hreturn
  visible := ⟨'"', by simp, by decide⟩

theorem unbroken_reference {name : String} (h : isName name = true) :
    Unbroken ("\"$" ++ name ++ "\"") := by
  have hchars := (isNameChar_of_isName h).2
  have hfeed : '\n' ∉ name.toList := fun hmem => absurd (hchars _ hmem) (by decide)
  have hreturn : '\r' ∉ name.toList := fun hmem => absurd (hchars _ hmem) (by decide)
  exact ⟨by simpa using hfeed, by simpa using hreturn, '"', by simp, by decide⟩

theorem unbroken_literal {value : Literal} {span : Span} {text : String}
    (h : literalText value span = .ok text) :
    text = value.text ∧ Unbroken ("\"" ++ value.text ++ "\"") := by
  have hplain := (accepted_literalText value span).1 ⟨text, h⟩
  have hfeed : '\n' ∉ value.text.toList := fun hmem => hplain _ hmem (by decide)
  have hreturn : '\r' ∉ value.text.toList := fun hmem => hplain _ hmem (by decide)
  exact ⟨Except.ok.inj (h.symm.trans (literalText_eq span hplain)), unbroken_quoted hfeed hreturn⟩

theorem unbroken_bare {n : String} (h : Numeral.isBare n = true) : Unbroken n := by
  have hbare := Numeral.isBareChar_of_isBare h
  have hfeed : '\n' ∉ n.toList := fun hmem => absurd (hbare _ hmem) (by decide)
  have hreturn : '\r' ∉ n.toList := fun hmem => absurd (hbare _ hmem) (by decide)
  refine ⟨hfeed, hreturn, ?_⟩
  cases hn : n.toList with
  | nil =>
    have hempty : Numeral.isBare "" = false := by decide
    rw [String.toList_eq_nil_iff.1 hn, hempty] at h
    cases h
  | cons c cs =>
    refine ⟨c, List.mem_cons_self, ?_⟩
    rcases hbare c (hn ▸ List.mem_cons_self) with halpha | rfl | rfl | rfl
    · exact Text.isBlank_of_isAlphanum halpha
    · decide
    · decide
    · decide

end Shell

end ScriptToShell
