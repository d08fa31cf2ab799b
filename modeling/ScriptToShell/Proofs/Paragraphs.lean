import ScriptToShell.Proofs.Inline

/-!
# Paragraphs

Chunks are laid out by a loop that looks at one line at a time and decides by
the last line that it has kept, across the borders of chunks, and cleans up at
the end. What comes out can be said without any loop. Blank lines part the
lines of the chunks into **paragraphs**, and the layout is the paragraphs with
one empty line between them (`laidOut_eq_spaced`).

Read line by line, this is a normal form: no line is lost that is not blank, two
of them that follow each other have an empty line between them if there was a
blank one and nothing otherwise, and no blank line stands at either end or
behind another. The main statement, `joinChunks_normal_form`, says both of every
list of chunks.
-/

namespace ScriptToShell.Shell

open Text

/-! ## Paragraphs and how they are spaced -/

/-- **The lines of chunks.** Chunks that are empty have none. -/
def linesOfChunks (chunks : List String) : List (List Char) :=
  (chunks.filter (· ≠ "")).flatMap fun chunk => pieces chunk.toList

/-- **The paragraphs of lines**: the longest runs of lines that are not
blank. -/
def paragraphs (lines : List (List Char)) : List (List (List Char)) :=
  (lines.splitOnP allBlank).filter (!·.isEmpty)

/-- **Paragraphs with one empty line between them.** -/
def spaced (lines : List (List Char)) : List (List Char) := [[]].intercalate (paragraphs lines)

/-- The paragraphs behind another one. -/
def spacedBehind (rest : List (List (List Char))) : List (List Char) :=
  if rest = [] then [] else [] :: [[]].intercalate rest

theorem intercalate_cons_eq (p : List (List Char)) (rest : List (List (List Char))) :
    [[]].intercalate (p :: rest) = p ++ spacedBehind rest := by
  cases rest with
  | nil => simp [spacedBehind, List.intercalate]
  | cons q rest => simp [spacedBehind, List.intercalate_cons_cons]

theorem intercalate_paragraphs_eq_nil_iff {rest : List (List (List Char))}
    (h : ∀ p ∈ rest, p ≠ []) : [[]].intercalate rest = [] ↔ rest = [] := by
  cases rest with
  | nil => simp
  | cons p rest =>
    rw [intercalate_cons_eq, List.append_eq_nil_iff]
    exact iff_of_false (fun hnil => h p List.mem_cons_self hnil.1) (List.cons_ne_nil p rest)

/-! ## The end of a layout -/

/-- What stands before a line that is not empty is not at the end. -/
theorem dropEmptyEnd_append_cons (lines rest : List (List Char)) {line : List Char}
    (h : line ≠ []) :
    dropEmptyEnd (lines ++ line :: rest) = lines ++ line :: dropEmptyEnd rest := by
  unfold dropEmptyEnd
  have hstart : (line :: lines.reverse).dropWhile List.isEmpty = line :: lines.reverse :=
    List.dropWhile_cons_of_neg (by simpa using h)
  rw [List.reverse_append, List.reverse_cons, List.append_assoc, List.singleton_append,
    List.dropWhile_append, hstart]
  split
  · rename_i hempty
    rw [List.isEmpty_iff.1 hempty]
    simp
  · simp

/-- An empty line is kept if there is something behind it. -/
theorem dropEmptyEnd_nil_cons (lines : List (List Char)) :
    dropEmptyEnd ([] :: lines)
      = if dropEmptyEnd lines = [] then [] else [] :: dropEmptyEnd lines := by
  unfold dropEmptyEnd
  rw [List.reverse_cons, List.dropWhile_append]
  split
  · rename_i hempty
    rw [if_pos (by simpa using hempty)]
    rfl
  · rename_i hempty
    rw [if_neg (by simpa using hempty), List.reverse_append]
    rfl

/-! ## Layouts are spaced paragraphs -/

theorem ne_nil_of_not_blank {line : List Char} (h : allBlank line ≠ true) : line ≠ [] := by
  rintro rfl
  exact h rfl

/-- **What the loop makes of lines**, at the start of a paragraph and in the
middle of one. There the first paragraph goes on, be it empty. -/
theorem dropEmptyEnd_squeeze (lines : List (List Char)) :
    dropEmptyEnd (squeeze false lines) = spaced lines
      ∧ ∃ p rest, lines.splitOnP allBlank = p :: rest
        ∧ dropEmptyEnd (squeeze true lines) = p ++ spacedBehind (rest.filter (!·.isEmpty)) := by
  induction lines with
  | nil => exact ⟨rfl, [], [], rfl, rfl⟩
  | cons line lines ih =>
    obtain ⟨hstart, p, rest, hsplit, hmiddle⟩ := ih
    by_cases hblank : allBlank line = true
    · have hparts : (line :: lines).splitOnP allBlank = [] :: lines.splitOnP allBlank := by
        rw [List.splitOnP_cons_eq_if_modifyHead, if_pos hblank]
      refine ⟨?_, [], _, hparts, ?_⟩
      · rw [squeeze, if_pos hblank, if_neg Bool.false_ne_true, hstart, spaced, spaced, paragraphs,
          paragraphs, hparts]
        rfl
      · have hfilled : ∀ q ∈ paragraphs lines, q ≠ [] := fun q hq => by
          simpa using (List.mem_filter.1 hq).2
        rw [squeeze, if_pos hblank, if_pos rfl, dropEmptyEnd_nil_cons, hstart, spaced,
          List.nil_append]
        simp only [intercalate_paragraphs_eq_nil_iff hfilled]
        rfl
    · have hparts : (line :: lines).splitOnP allBlank = (line :: p) :: rest := by
        rw [List.splitOnP_cons_eq_if_modifyHead, if_neg hblank, hsplit]
        rfl
      have hkept : ∀ mayBreak, dropEmptyEnd (squeeze mayBreak (line :: lines))
          = line :: p ++ spacedBehind (rest.filter (!·.isEmpty)) := by
        intro mayBreak
        rw [squeeze, if_neg hblank, List.cons_append, ← hmiddle]
        exact dropEmptyEnd_append_cons [] _ (ne_nil_of_not_blank hblank)
      refine ⟨?_, line :: p, rest, hparts, hkept true⟩
      rw [hkept false, spaced, paragraphs, hparts, List.filter_cons_of_pos rfl, intercalate_cons_eq]

/-- **A layout is its paragraphs with one empty line between them.** -/
theorem laidOut_eq_spaced (chunks : List String) : laidOut chunks = spaced (linesOfChunks chunks) :=
  (dropEmptyEnd_squeeze (linesOfChunks chunks)).1

/-! ## Layouts line by line -/

/-- What stands before a line that is not blank is laid out without it. -/
theorem squeeze_append_cons {line : List Char} (h : allBlank line = false) (mayBreak : Bool)
    (before behind : List (List Char)) :
    squeeze mayBreak (before ++ line :: behind)
      = squeeze mayBreak before ++ line :: squeeze true behind := by
  induction before generalizing mayBreak with
  | nil =>
    show squeeze mayBreak (line :: behind) = line :: squeeze true behind
    rw [squeeze, if_neg (by simp [h])]
  | cons first before ih =>
    rw [List.cons_append, squeeze, squeeze]
    split
    · split
      · rw [ih, List.cons_append]
      · rw [ih]
    · rw [ih, List.cons_append]

/-- Blank lines come to nothing where no empty line may come next. -/
theorem squeeze_false_of_blank {gap : List (List Char)} (h : ∀ line ∈ gap, allBlank line = true) :
    squeeze false gap = [] := by
  induction gap with
  | nil => rfl
  | cons line gap ih =>
    rw [List.forall_mem_cons] at h
    rw [squeeze, if_pos h.1, if_neg Bool.false_ne_true, ih h.2]

/-- Blank lines between two that are not come to one empty line. -/
theorem squeeze_true_of_blank {gap : List (List Char)} (h : ∀ line ∈ gap, allBlank line = true) :
    squeeze true gap = if gap = [] then [] else [[]] := by
  cases gap with
  | nil => rfl
  | cons line gap =>
    rw [List.forall_mem_cons] at h
    rw [squeeze, if_pos h.1, if_pos rfl, squeeze_false_of_blank h.2, if_neg (List.cons_ne_nil _ _)]

theorem Squeezed.eq_nil_of_blank {mayBreak : Bool} {lines : List (List Char)}
    (h : Squeezed mayBreak lines) {line : List Char} (hline : line ∈ lines)
    (hblank : allBlank line = true) : line = [] := by
  induction lines generalizing mayBreak with
  | nil => cases hline
  | cons first lines ih =>
    unfold Squeezed at h
    rcases List.mem_cons.1 hline with rfl | hmem
    · rw [if_pos hblank] at h
      exact h.1
    · split at h
      · exact ih h.2.2 hmem
      · exact ih h hmem

theorem Squeezed.not_blank_behind {mayBreak : Bool} {before behind : List (List Char)}
    {x y : List Char} (h : Squeezed mayBreak (before ++ x :: y :: behind))
    (hx : allBlank x = true) : allBlank y = false := by
  induction before generalizing mayBreak with
  | nil =>
    rw [List.nil_append, Squeezed, if_pos hx] at h
    exact h.2.2.head_not_blank
  | cons first before ih =>
    rw [List.cons_append, Squeezed] at h
    split at h
    · exact ih h.2.2
    · exact ih h

/-- **Lines in normal form**, seen against the lines that they come from. -/
structure NormalForm (lines result : List (List Char)) : Prop where
  /-- The lines that are not blank are there, unchanged and in their order. -/
  code_eq : code result = code lines
  /-- Two of them that follow each other have one empty line between them if
  there was a blank one, and nothing otherwise. -/
  between : ∀ before x gap y behind, lines = before ++ x :: (gap ++ y :: behind) →
    allBlank x = false → allBlank y = false → (∀ line ∈ gap, allBlank line = true) →
      ∃ before' behind', code before' = code before ∧ code behind' = code behind
        ∧ result = before' ++ x :: ((if gap = [] then [] else [[]]) ++ y :: behind')
  /-- There is no blank line at the start. -/
  head : ∀ line ∈ result.head?, allBlank line = false
  /-- There is none at the end. -/
  last : ∀ line ∈ result.getLast?, allBlank line = false
  /-- No two of them follow each other. -/
  apart : ∀ before x y behind, result = before ++ x :: y :: behind → allBlank x = true →
    allBlank y = false

/-- **A layout is in normal form.** -/
theorem normalForm_laidOut (chunks : List String) :
    NormalForm (linesOfChunks chunks) (laidOut chunks) where
  code_eq := by
    show code (dropEmptyEnd (squeeze false (linesOfChunks chunks))) = _
    rw [code_dropEmptyEnd]
    exact filter_squeeze false _
  between := by
    intro before x gap y behind hlines hx hy hgap
    refine ⟨squeeze false before, dropEmptyEnd (squeeze true behind), filter_squeeze false before,
      (code_dropEmptyEnd _).trans (filter_squeeze true behind), ?_⟩
    have hfilled : y ≠ [] := ne_nil_of_not_blank (by simp [hy])
    calc dropEmptyEnd (squeeze false (linesOfChunks chunks))
        = dropEmptyEnd ((squeeze false before ++ x :: squeeze true gap)
            ++ y :: squeeze true behind) := by
          rw [hlines, squeeze_append_cons hx, squeeze_append_cons hy, List.append_assoc,
            List.cons_append]
      _ = squeeze false before
            ++ x :: (squeeze true gap ++ y :: dropEmptyEnd (squeeze true behind)) := by
          rw [dropEmptyEnd_append_cons _ _ hfilled, List.append_assoc, List.cons_append]
      _ = _ := by rw [squeeze_true_of_blank hgap]
  head := by
    intro line hline
    have hsqueezed := squeezed_laidOut chunks
    obtain ⟨rest, hrest⟩ := List.head?_eq_some_iff.1 hline
    rw [hrest] at hsqueezed
    exact hsqueezed.head_not_blank
  last := by
    intro line hline
    refine eq_false_of_ne_true fun hblank => getLast?_laidOut chunks ?_
    rw [← (squeezed_laidOut chunks).eq_nil_of_blank (List.mem_of_getLast? hline) hblank]
    exact hline
  apart := by
    intro before x y behind hresult hx
    have hsqueezed := squeezed_laidOut chunks
    rw [hresult] at hsqueezed
    exact hsqueezed.not_blank_behind hx

/-- **Joining chunks computes the normal form of blank lines.** The text is the
paragraphs of the lines of the chunks, with one empty line between them, and
this is the normal form of those lines. They are also the lines of the text,
unless there are none, and joining the text alone gives it again. -/
theorem joinChunks_normal_form (chunks : List String) :
    joinChunks chunks = String.ofList (unpieces (spaced (linesOfChunks chunks)))
      ∧ NormalForm (linesOfChunks chunks) (spaced (linesOfChunks chunks))
      ∧ (spaced (linesOfChunks chunks) = []
        ∨ pieces (joinChunks chunks).toList = spaced (linesOfChunks chunks))
      ∧ joinChunks [joinChunks chunks] = joinChunks chunks := by
  have hspaced := laidOut_eq_spaced chunks
  refine ⟨?_, ?_, ?_, joinChunks_joinChunks chunks⟩
  · rw [← hspaced, joinChunks_eq]
  · rw [← hspaced]
    exact normalForm_laidOut chunks
  · rw [← hspaced]
    by_cases hnil : laidOut chunks = []
    · exact .inl hnil
    · exact .inr (pieces_joinChunks hnil)

/-- Blank lines at both ends of a chunk, a chunk of line feeds and an empty one
come to one empty line between two paragraphs. -/
example : joinChunks ["\na\n", "\n\n", "", " \t\nb\r\nc\n "] = "a\n\nb\r\nc" := by decide

end ScriptToShell.Shell
