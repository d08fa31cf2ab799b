import ScriptToShell.Proofs.LineLookup

/-!
# Diagnostics point at their spans

A diagnostic has three lines: the place and the message, the line of the
source that the place is in, and a line of marks. The marks are meant to stand
under the characters of the span, although the span is told in bytes and the
marks are set by counting characters. `SourceMap.diagnostic_underlines` says
that they do.

The three are computed apart from each other: the line number by a search, the
text of the line by a cut between two starts of lines, the marks by counting
the characters of the span. What joins them is how the text splits at the
start of the span: the line shown is the last line before the start, and then
the first line behind it (`SourceMap.lineText_of_standsBehind`).
-/

namespace ScriptToShell

/-! ## Spans that fit a text -/

theorem eq_nil_of_byteLength_eq_zero {cs : List Char} (h : byteLength cs = 0) : cs = [] := by
  cases cs with
  | nil => rfl
  | cons c cs =>
    have hsum : c.utf8Size + byteLength cs = 0 := h
    have hpos := c.utf8Size_pos
    omega

/-- **A span that fits a text** splits it into what comes before the span, what
is spanned and what comes behind. -/
theorem Span.Fits.exists_split {text : List Char} {span : Span} (h : span.Fits text) :
    ∃ before middle after, text = before ++ (middle ++ after)
      ∧ span = ⟨byteLength before, byteLength (before ++ middle)⟩ := by
  obtain ⟨before, behind, hstart, hbefore⟩ := h.start
  obtain ⟨upTo, after, hstop, hupTo⟩ := h.stop
  have hprefix : before <+: upTo := by
    obtain hprefix | ⟨cs, rfl⟩ :=
      List.prefix_or_prefix_of_prefix (⟨behind, hstart.symm⟩ : before <+: text) ⟨after, hstop.symm⟩
    · exact hprefix
    · have hordered := h.ordered
      rw [byteLength_append] at hbefore
      obtain rfl : cs = [] := eq_nil_of_byteLength_eq_zero (by omega)
      exact ⟨[], by simp⟩
  obtain ⟨middle, rfl⟩ := hprefix
  refine ⟨before, middle, after, by rw [hstop, List.append_assoc], ?_⟩
  rw [hbefore, hupTo]

/-! ## The parts of a diagnostic -/

/-- **A message over a line of text**, with the place before it and marks under
the line: as many spaces, a `^`, and as many `~`. -/
def underlined (name message : String) (line : Nat) (shown : List Char) (spaces tildes : Nat) :
    String :=
  name ++ ":" ++ toString line ++ ":" ++ toString (spaces + 1) ++ ": " ++ message ++ "\n"
    ++ String.ofList shown ++ "\n"
    ++ String.ofList (List.replicate spaces ' ' ++ '^' :: List.replicate tildes '~')

namespace SourceMap

variable {m : SourceMap} {before middle after : List Char} {pos : Nat}

/-- The line of an offset is the last line before it, and then the first line
behind it. -/
theorem lineText_of_standsBehind (htext : m.text.toList = before ++ after) :
    m.lineText (before.count '\n' + 1) = String.ofList (lastLine before ++ firstLine after) := by
  obtain ⟨head, hclosed, hbefore, hcount⟩ := exists_closed_append_lastLine before
  obtain ⟨rest, hrest, hafter⟩ := exists_firstLine_append after
  have hline : '\n' ∉ lastLine before ++ firstLine after := by
    rw [List.mem_append, not_or]
    exact ⟨feed_not_mem_lastLine before, feed_not_mem_firstLine after⟩
  have htext' : m.text.toList = head ++ ((lastLine before ++ firstLine after) ++ rest) := by
    rw [List.append_assoc, ← hafter, ← List.append_assoc, ← hbefore, htext]
  rw [hcount]
  exact lineText_eq htext' hclosed hline hrest

/-- There is always a first mark. -/
theorem exists_marks (m : SourceMap) (span : Span) :
    ∃ tildes, m.marks span = String.ofList ('^' :: List.replicate tildes '~') := by
  show ∃ tildes, (if (m.lineCol span.start).1 = (m.lineCol span.stop).1 then _ else _) = _
  split
  · exact ⟨_, rfl⟩
  · exact ⟨0, rfl⟩

/-- A diagnostic has the shape of a message over a line, whatever its span. -/
theorem diagnostic_eq_underlined {message : String} {span : Span} {line spaces tildes : Nat}
    {shown : List Char} (hlineCol : m.lineCol span.start = (line, spaces + 1))
    (hline : m.lineText line = String.ofList shown)
    (hmarks : m.marks span = String.ofList ('^' :: List.replicate tildes '~')) :
    m.diagnostic message span = underlined m.name message line shown spaces tildes := by
  simp only [diagnostic, underlined, hlineCol, hline, hmarks, Nat.add_sub_cancel,
    String.ofList_append, String.append_assoc]

section Spanned

variable (htext : m.text.toList = before ++ (middle ++ after))
include htext

theorem lineCol_start :
    m.lineCol (byteLength before) = (before.count '\n' + 1, (lastLine before).length + 1) := by
  have hclamped : byteLength before = min (byteLength before) m.size := by
    rw [size, htext, byteLength_append]
    omega
  rw [lineCol_of_standsBehind htext (standsBehind_byteLength _ _), if_pos hclamped]

/-- The marks under a span that fits the text. -/
theorem marks_eq :
    m.marks ⟨byteLength before, byteLength (before ++ middle)⟩
      = String.ofList
        ('^' :: List.replicate (if '\n' ∈ middle then 0 else max 1 middle.length - 1) '~') := by
  have hjoined : m.text.toList = (before ++ middle) ++ ([] ++ after) := by
    rw [htext, List.append_assoc, List.nil_append]
  have hstart := lineCol_start htext
  have hstop := lineCol_start hjoined
  have hlines : before.count '\n' + 1 = (before ++ middle).count '\n' + 1 ↔ '\n' ∉ middle := by
    rw [List.count_append, ← List.count_eq_zero]
    omega
  have hclamped : min (byteLength (before ++ middle)) m.size = byteLength (before ++ middle) := by
    rw [size, hjoined, byteLength_append (before ++ middle)]
    omega
  have hchars : m.charsBetween? (byteLength before) (byteLength (before ++ middle))
      = some middle.length := by
    rw [charsBetween?, htext, slice?_append (standsBehind_byteLength _ after), if_pos rfl]
    rfl
  simp only [marks, hstart, hstop, hlines, hclamped, hchars, Option.getD_some]
  by_cases hfeed : '\n' ∈ middle
  · rw [if_neg (not_not.2 hfeed), if_pos hfeed]
    rfl
  · rw [if_pos hfeed, if_neg hfeed]

end Spanned

/-- A start of a line behind the first is never the start of the text. -/
theorem lineStarts_succ_pos {i start : Nat} (h : m.lineStarts[i + 1]? = some start) :
    0 < start := by
  have hmem : start ∈ startsAfterFeeds 0 m.text.toList := by
    rw [← Array.getElem?_toList] at h
    exact List.mem_of_getElem? (i := i) h
  exact lt_of_mem_startsAfterFeeds hmem

/-- **The marks of a diagnostic stand under its span.** For a span that fits
the text, the line shown is the one that the span starts in. If the span stays
on the line, the spanned text is what stands above the marks, and there is a
mark for each of its characters, and one for an empty span. If it does not, the
only mark is the `^`.

For any other span the diagnostic still shows the line of its start, clamped
to the text, with a `^` and perhaps more marks under it; and what is subtracted
on the way is never more than what is there. -/
theorem diagnostic_underlines (m : SourceMap) (message : String) :
    (∀ span : Span, span.Fits m.text.toList →
      ∃ before middle after tildes, m.text.toList = before ++ (middle ++ after)
        ∧ span = ⟨byteLength before, byteLength (before ++ middle)⟩
        ∧ m.diagnostic message span
          = underlined m.name message (before.count '\n' + 1)
            (lastLine before ++ firstLine (middle ++ after)) (lastLine before).length tildes
        ∧ ('\n' ∉ middle → tildes + 1 = max 1 middle.length
          ∧ middle
            <+: (lastLine before ++ firstLine (middle ++ after)).drop (lastLine before).length)
        ∧ ('\n' ∈ middle → tildes = 0))
      ∧ (∀ span : Span, ∃ before after spaces tildes, m.text.toList = before ++ after
        ∧ StandsBehind span.start before after
        ∧ m.lineCol span.start = (before.count '\n' + 1, spaces + 1)
        ∧ m.diagnostic message span
          = underlined m.name message (before.count '\n' + 1) (lastLine before ++ firstLine after)
            spaces tildes)
      ∧ (∀ pos, m.search pos ≠ .missing 0)
      ∧ (∀ i start, m.lineStarts[i + 1]? = some start → 0 < start) := by
  refine ⟨fun span hfits => ?_, fun span => ?_, search_ne_missing_zero m,
    fun i start => lineStarts_succ_pos⟩
  · obtain ⟨before, middle, after, htext, rfl⟩ := hfits.exists_split
    refine ⟨before, middle, after, _, htext, rfl, diagnostic_eq_underlined (lineCol_start htext)
      (lineText_of_standsBehind htext) (marks_eq htext), fun hfeed => ⟨?_, ?_⟩, fun hfeed => ?_⟩
    · rw [if_neg hfeed]
      omega
    · have hfirst : firstLine (middle ++ after) = middle ++ firstLine after :=
        List.takeWhile_append_of_pos fun c hc => by simpa using ne_of_mem_of_not_mem hc hfeed
      rw [List.drop_left, hfirst]
      exact List.prefix_append _ _
    · exact if_pos hfeed
  · obtain ⟨after, htext, hbehind⟩ := standsBehind_wholeBefore m.text.toList span.start
    obtain ⟨tildes, hmarks⟩ := exists_marks m span
    obtain ⟨spaces, hlineCol⟩ : ∃ spaces, m.lineCol span.start
        = ((wholeBefore m.text.toList span.start).count '\n' + 1, spaces + 1) := by
      rw [lineCol_of_standsBehind htext hbehind]
      split
      · exact ⟨_, rfl⟩
      · exact ⟨0, rfl⟩
    exact ⟨_, after, spaces, tildes, htext, hbehind, hlineCol,
      diagnostic_eq_underlined hlineCol (lineText_of_standsBehind htext) hmarks⟩

/-- Two lines with characters of several bytes. -/
def accentedSource : SourceMap := ⟨"main.js", "f();\nlé = 'ñç';\n"⟩

theorem accentedSource_underlined :
    (⟨11, 17⟩ : Span).Fits accentedSource.text.toList
      ∧ accentedSource.diagnostic "boom" ⟨11, 17⟩
        = "main.js:2:6: boom\nlé = 'ñç';\n     ^~~~" := by
  have hfits : (⟨11, 17⟩ : Span).Fits accentedSource.text.toList :=
    ⟨by decide, by decide, by decide, by decide⟩
  obtain ⟨before, middle, after, tildes, htext, hspan, hdiagnostic, hmarks, -⟩ :=
    (diagnostic_underlines accentedSource "boom").1 _ hfits
  obtain ⟨hstart, hstop⟩ := Span.mk.inj hspan
  have hbefore : before = "f();\nlé = ".toList := by
    have hwhole := wholeBefore_append (standsBehind_byteLength before (middle ++ after))
    rw [← htext, ← hstart] at hwhole
    exact hwhole.symm
  subst hbefore
  have hmiddle : middle = "'ñç'".toList := by
    have hwhole := wholeBefore_append
      (standsBehind_byteLength ("f();\nlé = ".toList ++ middle) after)
    rw [List.append_assoc, ← htext, ← hstop] at hwhole
    have hupTo : "f();\nlé = ".toList ++ "'ñç'".toList = "f();\nlé = ".toList ++ middle := hwhole
    exact (List.append_cancel_left hupTo).symm
  subst hmiddle
  have hafter : after = ";\n".toList := by
    have hwhole : "f();\nlé = 'ñç'".toList ++ ";\n".toList = "f();\nlé = 'ñç'".toList ++ after :=
      htext
    exact (List.append_cancel_left hwhole).symm
  subst hafter
  obtain ⟨htildes, -⟩ := hmarks (by decide)
  obtain rfl : tildes = 3 := by simpa using htildes
  exact ⟨hfits, hdiagnostic.trans (by decide +kernel)⟩

end SourceMap

end ScriptToShell
