import Mathlib.Data.List.DropRight
import ScriptToShell.Proofs.Line
import ScriptToShell.Proofs.Place
import ScriptToShell.Source.Map

/-!
# Looking up lines

The line of an offset is found by a binary search among the offsets at which
lines start, and its column by cutting the text at two offsets. This module
says what comes out in terms of the characters of the text: the line counts
the line feeds before the offset, and the column the characters behind the
last of them (`SourceMap.lookup_counts`).

The characters before an offset are those that end at or before it
(`wholeBefore`). An offset inside a character thus has the same characters
before it as the start of that character, but it is no boundary
(`IsBoundary`), and the text cannot be cut there.

Everything about the table of line starts comes from how it splits with the
text (`SourceMap.lineStarts_of_append`): the starts up to an offset belong to
the line feeds before it, the others to those behind. So the search has
exactly one answer (`SourceMap.searchBetween_eq`), which is never the place
before the first entry.
-/

namespace ScriptToShell

/-! ## Characters before an offset -/

/-- **The whole characters of a text before an offset.** -/
def wholeBefore : List Char → Nat → List Char
  | [], _ => []
  | c :: cs, offset =>
    if c.utf8Size ≤ offset then c :: wholeBefore cs (offset - c.utf8Size) else []

/-- **An offset stands behind a run of characters**, right behind it or
inside the next character, or behind the whole text. -/
structure StandsBehind (offset : Nat) (before after : List Char) : Prop where
  /-- It does not come before the end of the run. -/
  reached : byteLength before ≤ offset
  /-- It comes before the end of the next character. -/
  next : ∀ c ∈ after.head?, offset < byteLength before + c.utf8Size

theorem standsBehind_wholeBefore (text : List Char) (offset : Nat) :
    ∃ after, text = wholeBefore text offset ++ after
      ∧ StandsBehind offset (wholeBefore text offset) after := by
  induction text generalizing offset with
  | nil => exact ⟨[], rfl, Nat.zero_le _, by simp⟩
  | cons c cs ih =>
    by_cases h : c.utf8Size ≤ offset
    · obtain ⟨after, htext, hreached, hnext⟩ := ih (offset - c.utf8Size)
      have hbefore : wholeBefore (c :: cs) offset = c :: wholeBefore cs (offset - c.utf8Size) :=
        if_pos h
      rw [hbefore]
      refine ⟨after, congrArg (c :: ·) htext, ?_, fun d hd => ?_⟩
      · show c.utf8Size + _ ≤ offset
        omega
      · have hlt := hnext d hd
        show offset < c.utf8Size + _ + d.utf8Size
        omega
    · have hbefore : wholeBefore (c :: cs) offset = [] := if_neg h
      rw [hbefore]
      refine ⟨c :: cs, rfl, Nat.zero_le _, fun d hd => ?_⟩
      obtain rfl : c = d := by simpa using hd
      show offset < 0 + c.utf8Size
      omega

/-- What stands before an offset is all that matters to `wholeBefore`. -/
theorem wholeBefore_append {offset : Nat} {before after : List Char}
    (h : StandsBehind offset before after) : wholeBefore (before ++ after) offset = before := by
  induction before generalizing offset with
  | nil =>
    cases after with
    | nil => rfl
    | cons c cs =>
      have hlt : offset < 0 + c.utf8Size := h.next c rfl
      exact if_neg (by omega)
  | cons c cs ih =>
    have hreached : c.utf8Size + byteLength cs ≤ offset := h.reached
    have htail : StandsBehind (offset - c.utf8Size) cs after := by
      refine ⟨by omega, fun d hd => ?_⟩
      have hlt : offset < c.utf8Size + byteLength cs + d.utf8Size := h.next d hd
      omega
    show (if c.utf8Size ≤ offset then c :: wholeBefore (cs ++ after) (offset - c.utf8Size) else [])
      = _
    rw [if_pos (by omega), ih htail]

/-- The end of a run of characters stands behind it. -/
theorem standsBehind_byteLength (before after : List Char) :
    StandsBehind (byteLength before) before after :=
  ⟨Nat.le_refl _, fun c _ => Nat.lt_add_of_pos_right c.utf8Size_pos⟩

theorem isBoundary_iff (text : List Char) (offset : Nat) :
    IsBoundary text offset ↔ byteLength (wholeBefore text offset) = offset := by
  constructor
  · rintro ⟨before, after, rfl, rfl⟩
    rw [wholeBefore_append (standsBehind_byteLength before after)]
  · intro h
    obtain ⟨after, htext, -⟩ := standsBehind_wholeBefore text offset
    exact ⟨_, after, htext, h⟩

instance (text : List Char) (offset : Nat) : Decidable (IsBoundary text offset) :=
  decidable_of_iff _ (isBoundary_iff text offset).symm

/-! ## Cutting a text by offsets -/

theorem dropBytes?_append (before after : List Char) :
    dropBytes? (before ++ after) (byteLength before) = some after := by
  induction before with
  | nil => simp [dropBytes?, byteLength]
  | cons c cs ih =>
    obtain ⟨n, hn⟩ := Nat.exists_eq_add_of_lt c.utf8Size_pos
    have hlength : byteLength (c :: cs) = n + byteLength cs + 1 := by
      simp only [byteLength]
      omega
    rw [hlength, List.cons_append, dropBytes?, if_pos (by omega), ← ih]
    congr 1
    omega

theorem takeBytes?_eq (text : List Char) (n : Nat) :
    takeBytes? text n
      = if byteLength (wholeBefore text n) = n then some (wholeBefore text n) else none := by
  induction text generalizing n with
  | nil =>
    cases n with
    | zero => rfl
    | succ n => rfl
  | cons c cs ih =>
    have hpos := c.utf8Size_pos
    cases n with
    | zero =>
      have hbefore : wholeBefore (c :: cs) 0 = [] := if_neg (by omega)
      rw [hbefore]
      rfl
    | succ n =>
      rw [takeBytes?, wholeBefore, ih]
      by_cases h : c.utf8Size ≤ n + 1
      · have hiff : byteLength (c :: wholeBefore cs (n + 1 - c.utf8Size)) = n + 1
            ↔ byteLength (wholeBefore cs (n + 1 - c.utf8Size)) = n + 1 - c.utf8Size := by
          simp only [byteLength]
          omega
        simp only [if_pos h, hiff]
        split <;> rfl
      · simp [h, byteLength]

/-- **A cut from a boundary on** gives the characters up to the second offset,
if this is a boundary, too. -/
theorem slice?_append {offset : Nat} {head middle after : List Char}
    (h : StandsBehind offset (head ++ middle) after) :
    slice? (head ++ (middle ++ after)) (byteLength head) offset
      = if byteLength (head ++ middle) = offset then some middle else none := by
  have hreached := h.reached
  rw [byteLength_append] at hreached ⊢
  have hmiddle : StandsBehind (offset - byteLength head) middle after := by
    refine ⟨by omega, fun c hc => ?_⟩
    have hnext := h.next c hc
    rw [byteLength_append] at hnext
    omega
  have hiff : byteLength middle = offset - byteLength head
      ↔ byteLength head + byteLength middle = offset := by omega
  rw [slice?, if_pos (by omega), dropBytes?_append, Option.bind_some, takeBytes?_eq,
    wholeBefore_append hmiddle]
  simp only [hiff]

/-! ## Lines of a text -/

/-- The characters behind the last line feed of a text. -/
def lastLine (text : List Char) : List Char := text.rtakeWhile (· ≠ '\n')

/-- The characters before the first line feed of a text. -/
def firstLine (text : List Char) : List Char := text.takeWhile (· ≠ '\n')

/-- A text that a line may start behind. -/
def Closed (text : List Char) : Prop := text = [] ∨ ∃ cs, text = cs ++ ['\n']

theorem feed_not_mem_lastLine (text : List Char) : '\n' ∉ lastLine text := by
  intro h
  simpa using List.mem_rtakeWhile_imp h

theorem feed_not_mem_firstLine (text : List Char) : '\n' ∉ firstLine text := by
  intro h
  simpa using List.mem_takeWhile_imp h

/-- A text is what ends in a line feed, and its last line. All line feeds are
in the first part. -/
theorem exists_closed_append_lastLine (text : List Char) :
    ∃ head, Closed head ∧ text = head ++ lastLine text ∧ text.count '\n' = head.count '\n' := by
  have happend : text.rdropWhile (· ≠ '\n') ++ lastLine text = text :=
    List.rdropWhile_append_rtakeWhile
  have hcount : text.count '\n' = (text.rdropWhile (· ≠ '\n')).count '\n' := by
    conv_lhs => rw [← happend]
    rw [List.count_append, List.count_eq_zero.2 (feed_not_mem_lastLine text), Nat.add_zero]
  refine ⟨text.rdropWhile (· ≠ '\n'), ?_, happend.symm, hcount⟩
  by_cases h : text.rdropWhile (· ≠ '\n') = []
  · exact .inl h
  · have hlast := List.rdropWhile_last_not _ _ h
    have hfeed : (text.rdropWhile (· ≠ '\n')).getLast h = '\n' := by simpa using hlast
    refine .inr ⟨(text.rdropWhile (· ≠ '\n')).dropLast, ?_⟩
    exact (List.dropLast_append_getLast h).symm.trans (congrArg (_ ++ [·]) hfeed)

/-- A text is its first line, and nothing else or a line feed and more. -/
theorem exists_firstLine_append (text : List Char) :
    ∃ rest, (rest = [] ∨ ∃ cs, rest = '\n' :: cs) ∧ text = firstLine text ++ rest := by
  refine ⟨text.dropWhile (· ≠ '\n'), ?_, List.takeWhile_append_dropWhile.symm⟩
  cases hrest : text.dropWhile (· ≠ '\n') with
  | nil => exact .inl rfl
  | cons c cs =>
    have hfeed := List.head?_dropWhile_not (· ≠ '\n') text
    rw [hrest] at hfeed
    exact .inr ⟨cs, by simpa using hfeed⟩

theorem Text.length_pieces (cs : List Char) : (Text.pieces cs).length = cs.count '\n' + 1 := by
  induction cs with
  | nil => rfl
  | cons c cs ih =>
    by_cases hc : c = '\n'
    · subst hc
      rw [Text.pieces_cons_break, List.length_cons, ih, List.count_cons_self]
    · obtain ⟨p, ps, hcs⟩ := List.exists_cons_of_ne_nil (Text.pieces_ne_nil cs)
      rw [Text.pieces_cons hc hcs, List.count_cons_of_ne hc, ← ih, hcs]
      rfl

namespace SourceMap

/-! ## Where lines start -/

theorem startsAfterFeeds_append (offset : Nat) (as bs : List Char) :
    startsAfterFeeds offset (as ++ bs)
      = startsAfterFeeds offset as ++ startsAfterFeeds (offset + byteLength as) bs := by
  induction as generalizing offset with
  | nil => rfl
  | cons a as ih =>
    have hbytes : offset + byteLength (a :: as) = offset + a.utf8Size + byteLength as :=
      (Nat.add_assoc _ _ _).symm
    rw [hbytes, List.cons_append, startsAfterFeeds, startsAfterFeeds, ih]
    split <;> rfl

theorem length_startsAfterFeeds (offset : Nat) (cs : List Char) :
    (startsAfterFeeds offset cs).length = cs.count '\n' := by
  induction cs generalizing offset with
  | nil => rfl
  | cons c cs ih =>
    rw [startsAfterFeeds, List.count_cons]
    split
    case isTrue h => simp [h, ih]
    case isFalse h => simp [h, ih]

/-- A line starts behind the first character of the text before it, at the
earliest. -/
theorem le_of_mem_startsAfterFeeds {offset start : Nat} {cs : List Char}
    (h : start ∈ startsAfterFeeds offset cs) : ∀ c ∈ cs.head?, offset + c.utf8Size ≤ start := by
  induction cs generalizing offset with
  | nil => cases h
  | cons c cs ih =>
    have htail : start ∈ startsAfterFeeds (offset + c.utf8Size) cs →
        offset + c.utf8Size ≤ start := by
      intro hmem
      cases cs with
      | nil => cases hmem
      | cons d ds =>
        have hle := ih hmem d rfl
        omega
    intro d hd
    obtain rfl : c = d := by simpa using hd
    rw [startsAfterFeeds] at h
    split at h
    · obtain rfl | hmem := List.mem_cons.1 h
      · exact Nat.le_refl _
      · exact htail hmem
    · exact htail h

theorem lt_of_mem_startsAfterFeeds {offset start : Nat} {cs : List Char}
    (h : start ∈ startsAfterFeeds offset cs) : offset < start := by
  cases cs with
  | nil => cases h
  | cons c cs =>
    have hle := le_of_mem_startsAfterFeeds h c rfl
    have hpos := c.utf8Size_pos
    omega

theorem mem_startsAfterFeeds_le {offset start : Nat} {cs : List Char}
    (h : start ∈ startsAfterFeeds offset cs) : start ≤ offset + byteLength cs := by
  induction cs generalizing offset with
  | nil => cases h
  | cons c cs ih =>
    rw [startsAfterFeeds] at h
    simp only [byteLength]
    split at h
    · obtain rfl | hmem := List.mem_cons.1 h
      · omega
      · have hle := ih hmem
        omega
    · have hle := ih h
      omega

theorem pairwise_startsAfterFeeds (offset : Nat) (cs : List Char) :
    (offset :: startsAfterFeeds offset cs).Pairwise (· < ·) := by
  refine List.pairwise_cons.2 ⟨fun start h => lt_of_mem_startsAfterFeeds h, ?_⟩
  induction cs generalizing offset with
  | nil => exact .nil
  | cons c cs ih =>
    rw [startsAfterFeeds]
    split
    · exact List.pairwise_cons.2 ⟨fun start h => lt_of_mem_startsAfterFeeds h, ih _⟩
    · exact ih _

variable {m : SourceMap} {before after : List Char} {pos : Nat}

/-- The starts of lines split with the text. -/
theorem lineStarts_of_append (htext : m.text.toList = before ++ after) :
    m.lineStarts.toList
      = (0 :: startsAfterFeeds 0 before) ++ startsAfterFeeds (byteLength before) after := by
  show 0 :: startsAfterFeeds 0 m.text.toList = _
  rw [htext, startsAfterFeeds_append, Nat.zero_add, List.cons_append]

theorem size_lineStarts (m : SourceMap) : m.lineStarts.size = m.text.toList.count '\n' + 1 := by
  show (0 :: startsAfterFeeds 0 m.text.toList).length = _
  rw [List.length_cons, length_startsAfterFeeds]

theorem count_lt_size_lineStarts (htext : m.text.toList = before ++ after) :
    before.count '\n' < m.lineStarts.size := by
  rw [size_lineStarts, htext, List.count_append]
  omega

/-- A line starts behind every text that ends in a line feed. -/
theorem lineStarts_of_closed (htext : m.text.toList = before ++ after) (hclosed : Closed before) :
    m.lineStarts[before.count '\n']? = some (byteLength before) := by
  rw [← Array.getElem?_toList, lineStarts_of_append htext]
  obtain rfl | ⟨cs, rfl⟩ := hclosed
  · rfl
  · have hstarts : startsAfterFeeds 0 (cs ++ ['\n'])
        = startsAfterFeeds 0 cs ++ [byteLength (cs ++ ['\n'])] := by
      rw [startsAfterFeeds_append, Nat.zero_add, byteLength_append]
      rfl
    have hcount : (cs ++ ['\n']).count '\n' = (startsAfterFeeds 0 cs).length + 1 := by
      rw [length_startsAfterFeeds, List.count_append]
      rfl
    rw [hstarts, hcount, List.cons_append, List.getElem?_cons_succ, List.append_assoc,
      List.getElem?_append_right (Nat.le_refl _), Nat.sub_self]
    rfl

/-! ## The search -/

/-- **The answer of the search** is the last entry that is not greater: it is
found, or the entry behind it is the first that is greater. -/
theorem searchBetween_eq {table : Array Nat} {target index low high : Nat}
    {bounded : high ≤ table.size} (hindex : index < table.size)
    (hsorted : table.toList.Pairwise (· < ·)) (hle : table[index] ≤ target)
    (hgt : ∀ j (hj : j < table.size), index < j → target < table[j])
    (hlow : low ≤ index + 1) (hhigh : index < high) :
    searchBetween table target low high bounded = .found index
      ∨ searchBetween table target low high bounded = .missing (index + 1) := by
  have hlt : ∀ j (hj : j < table.size), j < index → table[j] < target := by
    intro j hj hji
    have hpair := List.pairwise_iff_getElem.1 hsorted j index (by simpa using hj)
      (by simpa using hindex) hji
    rw [Array.getElem_toList, Array.getElem_toList] at hpair
    omega
  fun_induction searchBetween table target low high bounded with
  | case1 low high bounded h middle hmiddle heq =>
    -- An entry that is the target is neither before nor behind the index.
    obtain hlt' | rfl | hgt' := Nat.lt_trichotomy middle index
    · exact absurd heq (Nat.ne_of_lt (hlt middle hmiddle hlt'))
    · exact .inl rfl
    · exact absurd heq (Nat.ne_of_gt (hgt middle hmiddle hgt'))
  | case2 low high bounded h middle hmiddle hne hless ih =>
    have hbefore : middle ≤ index := by
      by_contra hcon
      have := hgt middle hmiddle (by omega)
      omega
    exact ih (by omega) hhigh
  | case3 low high bounded h middle hmiddle hne hless ih =>
    have hbehind : index < middle := by
      by_contra hcon
      obtain hlt' | rfl := Nat.lt_or_eq_of_le (Nat.le_of_not_lt hcon)
      · exact hless (hlt middle hmiddle hlt')
      · omega
    exact ih hlow hbehind
  | case4 low high bounded h =>
    have hend : low = index + 1 := by omega
    exact .inr (congrArg Sought.missing hend)

/-- **The search for an offset** answers with the line whose number is that of
the line feeds before the offset. -/
theorem search_eq (htext : m.text.toList = before ++ after) (h : StandsBehind pos before after) :
    m.search pos = .found (before.count '\n')
      ∨ m.search pos = .missing (before.count '\n' + 1) := by
  have hstarts := lineStarts_of_append htext
  have hlength : (0 :: startsAfterFeeds 0 before).length = before.count '\n' + 1 := by
    rw [List.length_cons, length_startsAfterFeeds]
  have hindex := count_lt_size_lineStarts htext
  have hsorted : m.lineStarts.toList.Pairwise (· < ·) := pairwise_startsAfterFeeds 0 _
  refine searchBetween_eq hindex hsorted ?_ (fun j hj hlt => ?_) (Nat.zero_le _) hindex
  · have hmem : m.lineStarts[before.count '\n'] ∈ 0 :: startsAfterFeeds 0 before := by
      rw [← Array.getElem_toList, List.getElem_of_eq hstarts,
        List.getElem_append_left (by rw [hlength]; exact Nat.lt_succ_self _)]
      exact List.getElem_mem _
    obtain hzero | hmem := List.mem_cons.1 hmem
    · rw [hzero]
      exact Nat.zero_le _
    · have hle := mem_startsAfterFeeds_le hmem
      have hreached := h.reached
      omega
  · have hmem : m.lineStarts[j] ∈ startsAfterFeeds (byteLength before) after := by
      rw [← Array.getElem_toList, List.getElem_of_eq hstarts,
        List.getElem_append_right (by rw [hlength]; exact hlt)]
      exact List.getElem_mem _
    cases after with
    | nil => cases hmem
    | cons c cs =>
      have hle := le_of_mem_startsAfterFeeds hmem c rfl
      have hnext := h.next c rfl
      omega

theorem lineIndex_eq (htext : m.text.toList = before ++ after) (h : StandsBehind pos before after) :
    m.lineIndex pos = before.count '\n' := by
  obtain hfound | hmissing := search_eq htext h
  · rw [lineIndex, hfound]
  · rw [lineIndex, hmissing]
    rfl

/-- The search never asks for a line before the first one. -/
theorem search_ne_missing_zero (m : SourceMap) (pos : Nat) : m.search pos ≠ .missing 0 := by
  obtain ⟨after, htext, h⟩ := standsBehind_wholeBefore m.text.toList pos
  obtain hfound | hmissing := search_eq htext h
  · rw [hfound]
    exact fun h => by cases h
  · rw [hmissing]
    exact fun h => by cases h

/-! ## Line and column -/

/-- A clamped offset stands behind the same characters. -/
theorem standsBehind_min (htext : m.text.toList = before ++ after)
    (h : StandsBehind pos before after) : StandsBehind (min pos m.size) before after := by
  have hsize : m.size = byteLength before + byteLength after := by
    rw [size, htext, byteLength_append]
  have hreached := h.reached
  refine ⟨by omega, fun c hc => ?_⟩
  have hnext := h.next c hc
  omega

/-- **Line and column of an offset**, from the characters before it. -/
theorem lineCol_of_standsBehind (htext : m.text.toList = before ++ after)
    (h : StandsBehind pos before after) :
    m.lineCol pos = (before.count '\n' + 1,
      if byteLength before = min pos m.size then (lastLine before).length + 1 else 1) := by
  obtain ⟨head, hclosed, hbefore, hcount⟩ := exists_closed_append_lastLine before
  have hclamped := standsBehind_min htext h
  have hindex := lineIndex_eq htext hclamped
  have htext' : m.text.toList = head ++ (lastLine before ++ after) := by
    rw [htext, ← List.append_assoc, ← hbefore]
  have hstart : m.lineStarts[before.count '\n']? = some (byteLength head) := by
    rw [hcount]
    exact lineStarts_of_closed htext' hclosed
  have hslice : slice? m.text.toList (byteLength head) (min pos m.size)
      = if byteLength before = min pos m.size then some (lastLine before) else none := by
    rw [hbefore] at hclamped
    rw [htext', slice?_append hclamped, ← hbefore]
  simp only [lineCol, hindex, hstart, charsBetween?, hslice, Option.getD_some]
  split <;> rfl

/-- The text of a line is what stands between two line feeds. -/
theorem lineText_eq {head line rest : List Char} (htext : m.text.toList = head ++ (line ++ rest))
    (hclosed : Closed head) (hline : '\n' ∉ line) (hrest : rest = [] ∨ ∃ cs, rest = '\n' :: cs) :
    m.lineText (head.count '\n' + 1) = String.ofList line := by
  have hstart := lineStarts_of_closed htext hclosed
  have hcount : (head ++ line).count '\n' = head.count '\n' := by
    rw [List.count_append, List.count_eq_zero.2 hline]
    rfl
  have hslice : slice? m.text.toList (byteLength head) (byteLength (head ++ line)) = some line := by
    rw [htext, slice?_append (standsBehind_byteLength _ rest), if_pos rfl]
  obtain rfl | ⟨cs, rfl⟩ := hrest
  · have hlast : m.lineStarts[head.count '\n' + 1]? = none := by
      have hsize := size_lineStarts m
      rw [htext, List.append_nil, hcount] at hsize
      exact Array.getElem?_eq_none (Nat.le_of_eq hsize)
    have hend : m.size = byteLength (head ++ line) := by
      rw [size, htext, List.append_nil]
    simp only [lineText, hstart, hlast, hend, hslice, Option.getD_some]
  · have hnext : m.lineStarts[head.count '\n' + 1]? = some (byteLength (head ++ line) + 1) := by
      have htext' : m.text.toList = (head ++ line ++ ['\n']) ++ cs := by simp [htext]
      have hnext := lineStarts_of_closed htext' (.inr ⟨_, rfl⟩)
      rwa [List.count_append, hcount, byteLength_append] at hnext
    simp only [lineText, hstart, hnext, Nat.add_sub_cancel, hslice, Option.getD_some]

/-- The lines behind a text that ends in a line feed. -/
theorem map_lineText {ps : List (List Char)} (hne : ps ≠ []) (hps : ∀ p ∈ ps, '\n' ∉ p)
    {head : List Char} (htext : m.text.toList = head ++ Text.unpieces ps) (hclosed : Closed head) :
    (List.range ps.length).map (fun i => m.lineText (head.count '\n' + i + 1))
      = ps.map String.ofList := by
  induction ps generalizing head with
  | nil => exact absurd rfl hne
  | cons p ps ih =>
    obtain ⟨hp, hps⟩ := List.forall_mem_cons.1 hps
    cases ps with
    | nil =>
      have htext' : m.text.toList = head ++ (p ++ []) := by
        rw [htext, List.append_nil]
        rfl
      simpa using lineText_eq htext' hclosed hp (.inl rfl)
    | cons q qs =>
      have htext' : m.text.toList = head ++ (p ++ '\n' :: Text.unpieces (q :: qs)) := htext
      have hline := lineText_eq htext' hclosed hp (.inr ⟨_, rfl⟩)
      have hcount : (head ++ p ++ ['\n']).count '\n' = head.count '\n' + 1 := by
        rw [List.count_append, List.count_append, List.count_eq_zero.2 hp]
        rfl
      have hrest : m.text.toList = head ++ p ++ ['\n'] ++ Text.unpieces (q :: qs) := by
        simp [htext']
      have htail := ih (List.cons_ne_nil q qs) hps hrest (.inr ⟨_, rfl⟩)
      rw [hcount] at htail
      rw [List.length_cons, List.range_succ_eq_map, List.map_cons, List.map_map, List.map_cons,
        ← htail, Nat.add_zero, hline]
      refine congrArg _ (List.map_congr_left fun i _ => ?_)
      show m.lineText (head.count '\n' + (i + 1) + 1) = m.lineText (head.count '\n' + 1 + i + 1)
      rw [Nat.add_right_comm (head.count '\n') 1 i]
      rfl

/-- **Looking up equals counting.** The line of an offset is one more than the
number of line feeds before it; its column is one more than the number of
characters behind the last of them, or one if the offset stands inside a
character. The search never misses before the first line, and the line it
leads to exists. Joined by line feeds, the lines are the text. -/
theorem lookup_counts (m : SourceMap) :
    (∀ pos, m.lineCol pos = ((wholeBefore m.text.toList pos).count '\n' + 1,
        if IsBoundary m.text.toList (min pos m.size)
          then (lastLine (wholeBefore m.text.toList pos)).length + 1 else 1))
      ∧ (∀ pos, m.search pos ≠ .missing 0 ∧ m.lineIndex pos < m.lineStarts.size)
      ∧ m.lineStarts.size = m.text.toList.count '\n' + 1
      ∧ Text.joinWith "\n" ((List.range m.lineStarts.size).map fun i => m.lineText (i + 1))
        = m.text := by
  refine ⟨fun pos => ?_, fun pos => ⟨search_ne_missing_zero m pos, ?_⟩, size_lineStarts m, ?_⟩
  · obtain ⟨after, htext, h⟩ := standsBehind_wholeBefore m.text.toList pos
    have hmin : wholeBefore m.text.toList (min pos m.size) = wholeBefore m.text.toList pos := by
      conv_lhs => rw [htext]
      exact wholeBefore_append (standsBehind_min htext h)
    rw [lineCol_of_standsBehind htext h]
    simp only [isBoundary_iff, hmin]
  · obtain ⟨after, htext, h⟩ := standsBehind_wholeBefore m.text.toList pos
    rw [lineIndex_eq htext h]
    exact count_lt_size_lineStarts htext
  · have htext : m.text.toList = [] ++ Text.unpieces (Text.pieces m.text.toList) :=
      (Text.unpieces_pieces _).symm
    have hlines := map_lineText (Text.pieces_ne_nil _)
      (fun p hp => Text.not_mem_of_mem_pieces hp) htext (.inl rfl)
    have hsize : m.lineStarts.size = (Text.pieces m.text.toList).length := by
      rw [size_lineStarts, Text.length_pieces]
    simp only [List.count_nil, Nat.zero_add] at hlines
    rw [hsize, hlines, Text.joinWith_map_ofList, Text.unpieces_pieces, String.ofList_toList]

end SourceMap

end ScriptToShell
