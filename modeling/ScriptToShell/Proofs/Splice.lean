import ScriptToShell.Proofs.BlockStructure

/-!
# Importing a generated script

A module is imported by its text. Its interpreter line and the blank
lines at both ends are cut off, the rest is taken apart into lines again,
and these are laid out anew with everything else. Nothing of this should
be seen in the end: importing a script gives the script again.

Two facts carry this. Laying out chunks is a **normal form**: the text
that comes out is laid out already (`joinChunks_joinChunks`). And chunks
of generated text are **tidy**, so that what is cut off at an import is
exactly what the layout has put there, and no line loses its end or is
taken for an interpreter line (`joinWith_spliced_script`).
-/

namespace ScriptToShell

open Emit Text

/-! ## The normal form of a layout -/

namespace Shell

/-- **Lines that are laid out already**: only empty lines are blank, and no
two of them follow each other. The flag says whether an empty line may
come next. -/
def Squeezed : Bool → List (List Char) → Prop
  | _, [] => True
  | mayBreak, line :: lines =>
    if allBlank line = true then line = [] ∧ mayBreak = true ∧ Squeezed false lines
    else Squeezed true lines

theorem squeezed_squeeze (mayBreak : Bool) (lines : List (List Char)) :
    Squeezed mayBreak (squeeze mayBreak lines) := by
  induction lines generalizing mayBreak with
  | nil => trivial
  | cons line lines ih =>
    unfold squeeze
    split
    · cases mayBreak with
      | false => exact ih false
      | true => exact ⟨rfl, rfl, ih false⟩
    · rename_i hline
      show if allBlank line = true then _ else _
      rw [if_neg hline]
      exact ih true

theorem squeeze_of_squeezed {mayBreak : Bool} {lines : List (List Char)}
    (h : Squeezed mayBreak lines) : squeeze mayBreak lines = lines := by
  induction lines generalizing mayBreak with
  | nil => rfl
  | cons line lines ih =>
    unfold Squeezed at h
    unfold squeeze
    split
    · rename_i hline
      rw [if_pos hline] at h
      obtain ⟨rfl, rfl, hrest⟩ := h
      rw [if_pos rfl, ih hrest]
    · rename_i hline
      rw [if_neg hline] at h
      rw [ih h]

theorem Squeezed.of_append {mayBreak : Bool} {lines rest : List (List Char)}
    (h : Squeezed mayBreak (lines ++ rest)) : Squeezed mayBreak lines := by
  induction lines generalizing mayBreak with
  | nil => trivial
  | cons line lines ih =>
    rw [List.cons_append] at h
    unfold Squeezed at h ⊢
    split at h
    · rename_i hline
      rw [if_pos hline]
      exact ⟨h.1, h.2.1, ih h.2.2⟩
    · rename_i hline
      rw [if_neg hline]
      exact ih h

/-- A text that is laid out does not begin with a blank line. -/
theorem Squeezed.head_not_blank {line : List Char} {lines : List (List Char)}
    (h : Squeezed false (line :: lines)) : allBlank line = false := by
  unfold Squeezed at h
  split at h
  · exact absurd h.2.1 (by decide)
  · rename_i hline
    exact eq_false_of_ne_true hline

theorem mem_squeeze {mayBreak : Bool} {lines : List (List Char)} {p : List Char}
    (h : p ∈ squeeze mayBreak lines) : p = [] ∨ p ∈ lines := by
  induction lines generalizing mayBreak with
  | nil => cases h
  | cons line lines ih =>
    unfold squeeze at h
    split at h
    · split at h
      · rcases List.mem_cons.1 h with rfl | hmem
        · exact .inl rfl
        · exact (ih hmem).imp_right (List.mem_cons_of_mem line)
      · exact (ih h).imp_right (List.mem_cons_of_mem line)
    · rcases List.mem_cons.1 h with rfl | hmem
      · exact .inr List.mem_cons_self
      · exact (ih hmem).imp_right (List.mem_cons_of_mem line)

/-- Only blank lines are lost. -/
theorem filter_squeeze (mayBreak : Bool) (lines : List (List Char)) :
    (squeeze mayBreak lines).filter (!allBlank ·) = lines.filter (!allBlank ·) := by
  induction lines generalizing mayBreak with
  | nil => rfl
  | cons line lines ih =>
    unfold squeeze
    split
    · rename_i hline
      rw [List.filter_cons_of_neg (by simp [hline])]
      cases mayBreak with
      | false => exact ih false
      | true => exact ih false
    · rename_i hline
      rw [List.filter_cons_of_pos (by simpa using hline),
        List.filter_cons_of_pos (by simpa using hline), ih true]

theorem dropEmptyEnd_snoc_nil (lines : List (List Char)) :
    dropEmptyEnd (lines ++ [[]]) = dropEmptyEnd lines := by
  unfold dropEmptyEnd
  rw [List.reverse_append]
  rfl

theorem dropEmptyEnd_of_getLast? {lines : List (List Char)} (h : lines.getLast? ≠ some []) :
    dropEmptyEnd lines = lines := by
  unfold dropEmptyEnd
  cases hreverse : lines.reverse with
  | nil =>
    rw [List.reverse_eq_nil_iff.1 hreverse]
    rfl
  | cons line rest =>
    have hline : line ≠ [] := by
      rintro rfl
      rw [List.getLast?_eq_head?_reverse, hreverse] at h
      exact h rfl
    rw [List.dropWhile_cons_of_neg (by simpa using hline), ← hreverse, List.reverse_reverse]

/-- **What is dropped at the end** is a number of empty lines, and none of
them is left. -/
theorem dropEmptyEnd_spec (lines : List (List Char)) :
    (∃ n, lines = dropEmptyEnd lines ++ List.replicate n [])
      ∧ (dropEmptyEnd lines).getLast? ≠ some [] := by
  induction hlen : lines.length generalizing lines with
  | zero =>
    rw [List.eq_nil_of_length_eq_zero hlen]
    exact ⟨⟨0, rfl⟩, by decide⟩
  | succ len ih =>
    by_cases hlast : lines.getLast? = some []
    · obtain ⟨start, rfl⟩ := List.getLast?_eq_some_iff.1 hlast
      rw [dropEmptyEnd_snoc_nil]
      obtain ⟨⟨n, hn⟩, hnone⟩ := ih start (by simpa using hlen)
      refine ⟨⟨n + 1, ?_⟩, hnone⟩
      rw [List.replicate_succ', ← List.append_assoc, ← hn]
    · rw [dropEmptyEnd_of_getLast? hlast]
      exact ⟨⟨0, (List.append_nil lines).symm⟩, hlast⟩

/-- **The lines of a layout.** -/
def laidOut (chunks : List String) : List (List Char) :=
  dropEmptyEnd (squeeze false ((chunks.filter (· ≠ "")).flatMap fun chunk => pieces chunk.toList))

theorem joinChunks_eq (chunks : List String) :
    joinChunks chunks = String.ofList (unpieces (laidOut chunks)) := rfl

theorem squeezed_laidOut (chunks : List String) : Squeezed false (laidOut chunks) := by
  obtain ⟨⟨n, hn⟩, -⟩ := dropEmptyEnd_spec
    (squeeze false ((chunks.filter (· ≠ "")).flatMap fun chunk => pieces chunk.toList))
  have hsqueezed := squeezed_squeeze false
    ((chunks.filter (· ≠ "")).flatMap fun chunk => pieces chunk.toList)
  rw [hn] at hsqueezed
  exact hsqueezed.of_append

theorem getLast?_laidOut (chunks : List String) : (laidOut chunks).getLast? ≠ some [] :=
  (dropEmptyEnd_spec _).2

/-- A line of a layout is empty or a line of a chunk. -/
theorem mem_laidOut {chunks : List String} {p : List Char} (h : p ∈ laidOut chunks) :
    p = [] ∨ ∃ chunk ∈ chunks, p ∈ pieces chunk.toList := by
  obtain ⟨⟨n, hn⟩, -⟩ := dropEmptyEnd_spec
    (squeeze false ((chunks.filter (· ≠ "")).flatMap fun chunk => pieces chunk.toList))
  have hmem : p ∈ squeeze false _ := hn ▸ List.mem_append_left _ h
  refine (mem_squeeze hmem).imp_right fun hpiece => ?_
  obtain ⟨chunk, hchunk, hp⟩ := List.mem_flatMap.1 hpiece
  exact ⟨chunk, (List.mem_filter.1 hchunk).1, hp⟩

theorem pieces_joinChunks {chunks : List String} (h : laidOut chunks ≠ []) :
    pieces (joinChunks chunks).toList = laidOut chunks := by
  rw [joinChunks_eq, String.toList_ofList]
  refine pieces_unpieces h fun p hp => ?_
  rcases mem_laidOut hp with rfl | ⟨chunk, -, hpiece⟩
  · exact List.not_mem_nil
  · exact not_mem_of_mem_pieces hpiece

theorem laidOut_ne_nil {chunks : List String} (h : joinChunks chunks ≠ "") :
    laidOut chunks ≠ [] := by
  intro hnil
  rw [joinChunks_eq, hnil] at h
  exact h rfl

theorem laidOut_singleton {text : String} (h : text ≠ "") :
    laidOut [text] = dropEmptyEnd (squeeze false (pieces text.toList)) := by
  simp [laidOut, h]

/-- **A layout is a normal form**: what is laid out once stays as it is. -/
theorem joinChunks_joinChunks (chunks : List String) :
    joinChunks [joinChunks chunks] = joinChunks chunks := by
  by_cases hempty : joinChunks chunks = ""
  · rw [hempty]
    rfl
  · rw [joinChunks_eq [_], laidOut_singleton hempty, pieces_joinChunks (laidOut_ne_nil hempty),
      squeeze_of_squeezed (squeezed_laidOut chunks),
      dropEmptyEnd_of_getLast? (getLast?_laidOut chunks), ← joinChunks_eq]

/-- The text of a script is that of its layout. -/
theorem script_congr (options : Options) {chunks chunks' : List String}
    (h : joinChunks chunks = joinChunks chunks') :
    script options chunks = script options chunks' := by
  unfold script
  rw [h]

theorem script_of_empty (options : Options) {chunks : List String} (h : joinChunks chunks = "") :
    script options chunks
      = if options.shebang = true then options.target.shebang ++ "\n" else "" := by
  unfold script
  rw [h]
  rfl

theorem toList_script (options : Options) {chunks : List String} (h : joinChunks chunks ≠ "") :
    (script options chunks).toList
      = (if options.shebang = true then options.target.shebang.toList ++ ['\n', '\n'] else [])
        ++ ((joinChunks chunks).toList ++ ['\n']) := by
  unfold script
  simp only [h, if_false]
  split <;> simp

/-! ## Tidy chunks -/

/-- **A tidy line**: empty, or without white space at its end and without
the sign of a comment at its beginning. -/
def TidyLine (line : List Char) : Prop := line = [] ∨ Solid line ∧ line.head? ≠ some '#'

/-- **A tidy text**: all its lines are tidy. -/
def Tidy (text : String) : Prop := ∀ line ∈ pieces text.toList, TidyLine line

theorem tidy_placed {unit : Indent} {line : Nat × String} (h : IsLine line.2) :
    Tidy (placed unit line) := by
  have hsettled : Settled (placed unit line).toList :=
    settled_append (settled_of_not_mem fun hmem => (isBlank_of_mem_indentation hmem).2 rfl)
      h.neat.settled
  have hhead : (placed unit line).toList.head? ≠ some '#' := by
    obtain ⟨c, hc, -, hnumber⟩ := h.begins
    unfold placed
    rw [String.toList_append, List.head?_append, hc]
    cases hindent : (indentation unit line.1).toList with
    | nil => simpa using hnumber
    | cons d ds =>
      have hblank := (isBlank_of_mem_indentation (hindent ▸ List.mem_cons_self)).1
      rintro heq
      cases heq
      cases hblank
  obtain ⟨ps, hps, hfirst, hothers⟩ := pieces_of_settled hsettled (solid_append _ h.neat.solid)
  unfold Tidy
  rw [hps, List.forall_mem_cons]
  refine ⟨.inr ⟨hfirst, fun hnumber => hhead ?_⟩, fun p hp => .inr ⟨(hothers p hp).1, ?_⟩⟩
  · -- the first line begins as the text does
    obtain ⟨rest, hrest⟩ := List.takeWhile_prefix (p := (· ≠ '\n')) (l := (placed unit line).toList)
    rw [← hrest, List.head?_append, hnumber]
    rfl
  · obtain ⟨rest, hrest⟩ := (hothers p hp).2
    rw [← hrest]
    simp

/-- **Lines that render blocks are tidy.** -/
theorem tidy_joinWith {ok : String → Prop} (hok : ∀ name, ok name → isName name = true)
    {unit : Indent} {lines : List String} {bs : List Block} (h : Renders ok unit lines bs) :
    Tidy (joinWith "\n" lines) := by
  have hempty : Tidy "" := List.forall_mem_singleton.2 (.inl rfl)
  cases lines with
  | nil => exact hempty
  | cons line lines =>
    intro p hp
    rw [pieces_joinWith (List.cons_ne_nil line lines)] at hp
    obtain ⟨l, hl, hpiece⟩ := List.mem_flatMap.1 hp
    by_cases hne : l = ""
    · rw [hne] at hpiece
      exact hempty p hpiece
    · have hfilter : l ∈ (line :: lines).filter (· ≠ "") :=
        List.mem_filter.2 ⟨hl, decide_eq_true hne⟩
      rw [h.shows] at hfilter
      obtain ⟨x, hx, rfl⟩ := List.mem_map.1 hfilter
      exact tidy_placed (Block.isLine_of_mem_layoutAll hok bs h.legible x hx) p hpiece

/-! ## Splicing a script -/

theorem Solid.head?_append {cs : List Char} (h : Solid cs) (ds : List Char) :
    (cs ++ ds).head? = cs.head? := by
  obtain ⟨c, rest, rfl⟩ := List.exists_cons_of_ne_nil h.ne_nil
  rfl

theorem trimEnd_append_break {cs : List Char} (h : Solid cs) : trimEnd (cs ++ ['\n']) = cs := by
  obtain ⟨c, hc, hblank⟩ := h
  rw [List.getLast?_eq_head?_reverse] at hc
  unfold trimEnd
  rw [List.reverse_append]
  show ((cs.reverse).dropWhile isBlank).reverse = cs
  cases hreverse : cs.reverse with
  | nil =>
    rw [hreverse] at hc
    cases hc
  | cons d ds =>
    rw [hreverse] at hc
    cases hc
    rw [List.dropWhile_cons_of_neg (by simp [hblank]), ← hreverse, List.reverse_reverse]

theorem dropBreaks_eq {cs : List Char} (hbreak : cs.head? ≠ some '\n') :
    cs.dropWhile (· = '\n') = cs := by
  cases cs with
  | nil => rfl
  | cons c cs => exact List.dropWhile_cons_of_neg (by simpa using hbreak)

/-- A text that begins neither with a comment nor with a break has nothing
to cut off. -/
theorem withoutShebang_eq {cs : List Char} (hnumber : cs.head? ≠ some '#')
    (hbreak : cs.head? ≠ some '\n') : withoutShebang cs = cs := by
  unfold withoutShebang
  split
  · exact absurd rfl hnumber
  · exact dropBreaks_eq hbreak

/-- An interpreter line is cut off, with the empty line behind it. -/
theorem withoutShebang_shebang (target : Target) {cs : List Char}
    (hbreak : cs.head? ≠ some '\n') :
    withoutShebang (target.shebang.toList ++ '\n' :: '\n' :: cs) = cs := by
  have hdrop : withoutShebang (target.shebang.toList ++ '\n' :: '\n' :: cs)
      = cs.dropWhile (· = '\n') := by
    cases target <;> rfl
  rw [hdrop, dropBreaks_eq hbreak]

/-- The end of a text is the end of its last line. -/
theorem solid_unpieces {ps : List (List Char)} {p : List Char} (h : ps.getLast? = some p)
    (hp : Solid p) : Solid (unpieces ps) := by
  induction ps with
  | nil => cases h
  | cons q qs ih =>
    cases qs with
    | nil =>
      cases h
      exact hp
    | cons r rs =>
      rw [List.getLast?_cons_cons] at h
      show Solid (q ++ '\n' :: unpieces (r :: rs))
      rw [List.append_cons]
      exact (ih h).append_left _

theorem head?_unpieces {p : List Char} (hp : p ≠ []) (ps : List (List Char)) :
    (unpieces (p :: ps)).head? = p.head? := by
  cases ps with
  | nil => rfl
  | cons q qs =>
    show (p ++ '\n' :: unpieces (q :: qs)).head? = _
    cases p with
    | nil => exact absurd rfl hp
    | cons c cs => rfl

section Spliced

variable {chunks : List String} (h : ∀ chunk ∈ chunks, Tidy chunk)
include h

theorem tidyLine_of_mem_laidOut {p : List Char} (hp : p ∈ laidOut chunks) : TidyLine p := by
  rcases mem_laidOut hp with rfl | ⟨chunk, hchunk, hpiece⟩
  · exact .inl rfl
  · exact h chunk hchunk p hpiece

/-- What the layout begins and ends with. -/
theorem solid_joinChunks (hne : joinChunks chunks ≠ "") :
    Solid (joinChunks chunks).toList ∧ (joinChunks chunks).toList.head? ≠ some '#'
      ∧ (joinChunks chunks).toList.head? ≠ some '\n' := by
  have hlines := laidOut_ne_nil hne
  rw [joinChunks_eq, String.toList_ofList]
  refine ⟨?_, ?_⟩
  · have hlast := List.getLast?_eq_some_getLast hlines
    have htidy := tidyLine_of_mem_laidOut h (List.mem_of_getLast? hlast)
    rcases htidy with hnil | ⟨hsolid, -⟩
    · rw [hnil] at hlast
      exact absurd hlast (getLast?_laidOut chunks)
    · exact solid_unpieces hlast hsolid
  · obtain ⟨p, ps, hcons⟩ := List.exists_cons_of_ne_nil hlines
    have hsqueezed := squeezed_laidOut chunks
    have hmem : p ∈ laidOut chunks := hcons ▸ List.mem_cons_self
    rw [hcons] at hsqueezed ⊢
    rcases tidyLine_of_mem_laidOut h hmem with rfl | ⟨hsolid, hnumber⟩
    · exact absurd hsqueezed.head_not_blank (by decide)
    · rw [head?_unpieces hsolid.ne_nil]
      refine ⟨hnumber, fun hbreak => ?_⟩
      have hp : '\n' ∈ p := List.mem_of_mem_head? hbreak
      rcases mem_laidOut hmem with rfl | ⟨chunk, -, hpiece⟩
      · cases hp
      · exact not_mem_of_mem_pieces hpiece hp

/-- **Importing a script gives its layout back**, whatever options it has
been written with. -/
theorem joinWith_spliced_script (options : Options) :
    joinWith "\n" (spliced (script options chunks)) = joinChunks chunks := by
  by_cases hempty : joinChunks chunks = ""
  · have hnothing : ∀ target : Target, joinWith "\n" (spliced (target.shebang ++ "\n")) = "" := by
      intro target
      cases target <;> decide +kernel
    rw [hempty, script_of_empty options hempty]
    split
    · exact hnothing options.target
    · decide +kernel
  · obtain ⟨hsolid, hnumber, hbreak⟩ := solid_joinChunks h hempty
    have hcut : withoutShebang (script options chunks).toList
        = (joinChunks chunks).toList ++ ['\n'] := by
      rw [← hsolid.head?_append ['\n']] at hnumber hbreak
      rw [toList_script options hempty]
      split
      · rw [List.append_assoc, List.cons_append, List.cons_append, List.nil_append,
          withoutShebang_shebang options.target hbreak]
      · rw [List.nil_append, withoutShebang_eq hnumber hbreak]
    have hpieces := pieces_joinChunks (laidOut_ne_nil hempty)
    have hsplit : splitText (joinChunks chunks)
        = (pieces (joinChunks chunks).toList).map String.ofList := by
      refine splitText_eq (fun p hp => ?_) ?_
      · rw [hpieces] at hp
        exact (tidyLine_of_mem_laidOut h hp).imp_right And.left
      · rw [hpieces]
        exact getLast?_laidOut chunks
    unfold spliced
    rw [hcut, trimEnd_append_break hsolid, String.ofList_toList, hsplit, joinWith_map_ofList,
      unpieces_pieces, String.ofList_toList]

end Spliced

end Shell

/-! ## Importing a script -/

open Shell

/-- **The chunks of plain statements are tidy.** -/
theorem Stmt.tidy_of_mem_chunks {ok : String → Prop} (hok : ∀ name, ok name → isName name = true)
    {w : Setting} {f : Bool} {n : Nesting} {stmts : List Stmt}
    (hplain : ∀ s ∈ stmts, s.Plain ok f) {chunks : List String}
    (h : Emission.outcome (Stmt.chunks w stmts) n = .ok chunks) : ∀ chunk ∈ chunks, Tidy chunk := by
  induction stmts generalizing chunks with
  | nil =>
    rw [outcome_chunks_nil] at h
    cases h
    exact nofun
  | cons s ss ih =>
    rw [List.forall_mem_cons] at hplain
    rw [outcome_chunks_cons] at h
    obtain ⟨lines, rest, hlines, hrest, rfl⟩ := bind₂_eq_ok_iff.1 h
    obtain ⟨bs, -, hrenders⟩ := (isMirrored hok w s f n hplain.1).1 lines hlines
    exact List.forall_mem_cons.2 ⟨tidy_joinWith hok hrenders, ih hplain.2 hrest⟩

namespace Program

theorem tidy_of_mem_chunks {w : Setting} {p : Program} (himports : p.imports = [])
    (hnames : ∀ name ∈ p.names, isName name = true) {chunks : List String}
    (h : p.chunks w = .ok chunks) : ∀ chunk ∈ chunks, Tidy chunk :=
  Stmt.tidy_of_mem_chunks (fun _ hname => hname)
    (Stmt.plain_all.2 ⟨himports, Stmt.forall_namesAll.1 hnames⟩) h

/-- **A program that does nothing but import a module.** -/
def importing (source : String) (span : Span) : Program :=
  { body := [.importModule source span], span }

theorem chunks_importing (w : Setting) (source : String) (span : Span) :
    (importing source span).chunks w
      = (w.modules source).map fun text => [joinWith "\n" (spliced text)] := by
  show Emission.outcome (Stmt.chunks w [.importModule source span]) {} = _
  rw [Stmt.outcome_chunks_cons, Stmt.outcome_importModule, Stmt.outcome_chunks_nil]
  cases w.modules source <;> rfl

/-- **The script of a module that only imports another one**, from the text
of the other. The hop has the options of the module and the specifier it
imports by. -/
def reexport (text : String) (hop : Options × String) : Except Fault String :=
  (importing hop.2 .nowhere).script { options := hop.1, modules := fun _ => .ok text }

theorem script_importing {chunks : List String} (h : ∀ chunk ∈ chunks, Tidy chunk)
    {first : Options} {w : Setting} {source : String}
    (hmodule : w.modules source = .ok (Shell.script first chunks)) (span : Span) :
    (importing source span).script w = .ok (Shell.script w.options chunks) := by
  unfold script
  rw [chunks_importing, hmodule]
  refine congrArg Except.ok (script_congr w.options ?_)
  show joinChunks [joinWith "\n" (spliced (Shell.script first chunks))] = joinChunks chunks
  rw [joinWith_spliced_script h, joinChunks_joinChunks]

/-- **Importing a script reproduces it.** The script of a program that
imports nothing, written with any options, can be imported by a module with
any other options, and the script of that module is the one the program
would have with its options. So it is through any number of modules. -/
theorem import_reproduces_script (w : Setting) (p : Program) (chunks : List String)
    (first : Options) (himports : p.imports = []) (hnames : ∀ name ∈ p.names, isName name = true)
    (hchunks : p.chunks w = .ok chunks) :
    (∀ (w' : Setting) (source : String) (span : Span),
        w'.modules source = .ok (Shell.script first chunks) →
        (importing source span).script w' = .ok (Shell.script w'.options chunks))
      ∧ ∀ (hops : List (Options × String)) (last : Options) (source : String),
        (hops ++ [(last, source)]).foldlM reexport (Shell.script first chunks)
          = .ok (Shell.script last chunks) := by
  have htidy := tidy_of_mem_chunks himports hnames hchunks
  refine ⟨fun w' source span hmodule => script_importing htidy hmodule span, ?_⟩
  intro hops last source
  -- each hop starts from a script of the same chunks, only the options change
  have hhop : ∀ (options : Options) (hop : Options × String),
      reexport (Shell.script options chunks) hop = .ok (Shell.script hop.1 chunks) :=
    fun options hop => script_importing htidy rfl .nowhere
  induction hops generalizing first with
  | nil =>
    rw [List.nil_append, List.foldlM_cons, hhop]
    rfl
  | cons hop hops ih =>
    rw [List.cons_append, List.foldlM_cons, hhop]
    exact ih hop.1

/-- A conditional around a call that prints three lines, between two
declarations. -/
def notice : Program :=
  let name (text : String) : Expr := .identifier text .nowhere
  let string (text : String) : Expr := .literal (.string text) .nowhere
  let declare (text : String) (value : Expr) : Stmt :=
    .declaration .const [⟨.identifier text .nowhere, some value, .nowhere⟩] .nowhere
  let print : Stmt :=
    .expression (.call (.member (name "console") "error" .nowhere)
      [string "#!", name "a", string ""] .nowhere) .nowhere
  { body := [declare "a" (string "#"), .branch (name "a") print none .nowhere,
      declare "b" (name "a")]
    span := .nowhere }

theorem notice_reproduced :
    notice.imports = [] ∧ (∀ name ∈ notice.names, isName name = true)
      ∧ ∃ chunks, notice.chunks .blank = .ok chunks
        ∧ (importing "./notice" .nowhere).script
            { options := { target := .posix }, modules := fun _ => .ok (Shell.script {} chunks) }
          = .ok (Shell.script { target := .posix } chunks)
        ∧ [({ shebang := false }, "./notice"), ({ target := .posix }, "./first"),
            (({ indent := .tabs } : Options), "./second")].foldlM reexport (Shell.script {} chunks)
          = .ok (Shell.script { indent := .tabs } chunks) := by
  have himports : notice.imports = [] := rfl
  have hnames : ∀ name ∈ notice.names, isName name = true := by decide +kernel
  obtain ⟨chunks, hchunks⟩ : ∃ chunks, notice.chunks .blank = .ok chunks := ⟨_, rfl⟩
  obtain ⟨honce, hchain⟩ :=
    import_reproduces_script .blank notice chunks {} himports hnames hchunks
  refine ⟨himports, hnames, chunks, hchunks, honce _ _ _ rfl, ?_⟩
  exact hchain [({ shebang := false }, "./notice"), ({ target := .posix }, "./first")] _ _

end Program

end ScriptToShell
