import ScriptToShell.Proofs.Escapes

/-!
# Codes of half a character

A string of the source language is a row of **code units**. A character above
U+FFFF takes two of them, a surrogate pair (`utf16`), and a code with four
digits names a unit, not a character: the two codes of a pair, one behind the
other, are a way to write the character. The reader decodes each code on its
own, and the code of a half is no character, so it is read as the text of the
escape without its backslash.

A `StringPart` is an item of a string, as before, or the code of a half. What
it denotes are units (`StringPart.units`), and what it is read as are
characters (`StringPart.value`). `Program.parse_halves` compares the two: a
string is read as the units it denotes exactly if no half is written by its
code, since each half makes it four units longer
(`StringPart.length_value`). So the codes of a pair are never read as their
character.
-/

namespace ScriptToShell

open Scan

/-! ## Code units -/

/-- The first half of the surrogate pair of a character above U+FFFF. -/
def highUnit (c : Char) : Nat := 0xD800 + (c.toNat - 0x10000) / 0x400

/-- The second half of the surrogate pair of a character above U+FFFF. -/
def lowUnit (c : Char) : Nat := 0xDC00 + (c.toNat - 0x10000) % 0x400

/-- **The code units of a character** in UTF-16. -/
def utf16 (c : Char) : List Nat :=
  if c.toNat ≤ 0xFFFF then [c.toNat] else [highUnit c, lowUnit c]

/-- A unit that is half of a pair. -/
def IsSurrogate (unit : Nat) : Prop := 0xD800 ≤ unit ∧ unit ≤ 0xDFFF

theorem IsSurrogate.not_isValidChar {unit : Nat} (h : IsSurrogate unit) : ¬unit.isValidChar := by
  obtain ⟨hlow, hhigh⟩ := h
  unfold Nat.isValidChar
  omega

theorem isSurrogate_highUnit (c : Char) : IsSurrogate (highUnit c) := by
  have hvalid : c.toNat.isValidChar := c.valid
  unfold Nat.isValidChar at hvalid
  unfold IsSurrogate highUnit
  omega

theorem isSurrogate_lowUnit (c : Char) : IsSurrogate (lowUnit c) := by
  unfold IsSurrogate lowUnit
  omega

theorem utf16_ne_nil (c : Char) : utf16 c ≠ [] := by
  unfold utf16
  split <;> exact List.cons_ne_nil _ _

theorem utf16_append_inj {c d : Char} {us vs : List Nat} (h : utf16 c ++ us = utf16 d ++ vs) :
    c = d ∧ us = vs := by
  have hc : c.toNat.isValidChar := c.valid
  have hd : d.toNat.isValidChar := d.valid
  have hchigh := isSurrogate_highUnit c
  have hdhigh := isSurrogate_highUnit d
  unfold Nat.isValidChar at hc hd
  unfold IsSurrogate at hchigh hdhigh
  -- A half is no character, so the first unit tells how many there are.
  unfold utf16 at h
  split at h <;> split at h <;>
    simp only [List.cons_append, List.nil_append, List.cons.injEq] at h
  · exact ⟨Char.toNat_inj.1 h.1, h.2⟩
  · omega
  · omega
  · obtain ⟨hhigh, hlow, htail⟩ := h
    unfold highUnit at hhigh
    unfold lowUnit at hlow
    exact ⟨Char.toNat_inj.1 (by omega), htail⟩

/-- **No two texts have the same units.** -/
theorem flatMap_utf16_injective : Function.Injective (List.flatMap utf16) := by
  intro cs
  induction cs with
  | nil =>
    intro ds h
    cases ds with
    | nil => rfl
    | cons d ds => exact absurd (List.append_eq_nil_iff.1 h.symm).1 (utf16_ne_nil d)
  | cons c cs ih =>
    intro ds h
    cases ds with
    | nil => exact absurd (List.append_eq_nil_iff.1 h).1 (utf16_ne_nil c)
    | cons d ds =>
      obtain ⟨rfl, htail⟩ := utf16_append_inj h
      rw [ih htail]

/-! ## Parts of a string -/

/-- **A part of a string**: an item, or the code of a half in four digits. -/
inductive StringPart where
  /-- A character, or nothing. -/
  | item (i : StringItem)
  /-- The code of a unit that is half of a pair. -/
  | half (unit : Nat) (digits : List Char)

namespace StringPart

/-- What stands in the source. -/
def text : StringPart → List Char
  | item i => i.text
  | half _ digits => '\\' :: 'u' :: digits

/-- The units it denotes. -/
def units : StringPart → List Nat
  | item i => i.chars.flatMap utf16
  | half unit _ => [unit]

/-- What it is read as. -/
def value : StringPart → List Char
  | item i => i.chars
  | half _ digits => 'u' :: digits

/-- Whether it is the code of a half. -/
def isHalf : StringPart → Bool
  | item _ => false
  | half _ _ => true

/-- **A part that keeps the rules of its kind.** -/
def WellFormed : StringPart → Prop
  | item i => i.WellFormed
  | half unit digits => IsSurrogate unit ∧ digits.length = 4 ∧ WritesHex unit digits

theorem WellFormed.readsAs {part : StringPart} (h : part.WellFormed) :
    ReadsAs part.text part.value := by
  cases part with
  | item i => exact StringItem.WellFormed.readsAs h
  | half unit digits =>
    obtain ⟨hunit, hlength, hdigits⟩ := h
    have hvalue : unescape ('u' :: digits) = 'u' :: digits := by
      rw [unescape_unitCode hdigits.all_isHexDigit,
        hdigits.charOfHex?_eq_none hunit.not_isValidChar]
      rfl
    have hreads := readsAs_escape ('u' :: digits) fun rest _ => by
      rw [List.cons_append, escape?_unitCode hlength hdigits.all_isHexDigit, List.length_cons,
        hlength]
    rwa [hvalue] at hreads

theorem WellFormed.null_not_mem {part : StringPart} (h : part.WellFormed) : '\x00' ∉ part.text := by
  cases part with
  | item i => exact StringItem.WellFormed.null_not_mem h
  | half unit digits =>
    have hdigits : '\x00' ∉ digits := fun hmem =>
      absurd (List.all_eq_true.1 h.2.2.all_isHexDigit _ hmem) (by decide)
    simpa [text] using hdigits

theorem utf16_of_isHexDigit {d : Char} (h : isHexDigit d) : utf16 d = [d.toNat] := by
  refine if_pos ?_
  simp only [isHexDigit, Char.isDigit, Bool.or_eq_true, Bool.and_eq_true, decide_eq_true_eq] at h
  obtain (⟨-, hle⟩ | ⟨-, hle⟩) | ⟨-, hle⟩ := h
  · exact Nat.le_trans (m := 57) hle (by decide)
  · exact Nat.le_trans (m := 102) hle (by decide)
  · exact Nat.le_trans (m := 70) hle (by decide)

/-- The code of a half is read as four units more than it denotes. -/
theorem length_value {part : StringPart} (h : part.WellFormed) :
    (part.value.flatMap utf16).length = part.units.length + 4 * part.isHalf.toNat := by
  cases part with
  | item i => rfl
  | half unit digits =>
    obtain ⟨-, hlength, hdigits⟩ := h
    have hunits : digits.flatMap utf16 = digits.flatMap fun d => [d.toNat] :=
      List.flatMap_congr fun d hd =>
        utf16_of_isHexDigit (List.all_eq_true.1 hdigits.all_isHexDigit d hd)
    show (utf16 'u' ++ digits.flatMap utf16).length = _
    rw [hunits, ← List.map_eq_flatMap, List.length_append, List.length_map, hlength]
    rfl

theorem length_values {parts : List StringPart} (h : ∀ part ∈ parts, part.WellFormed) :
    ((parts.flatMap value).flatMap utf16).length
      = (parts.flatMap units).length + 4 * parts.countP isHalf := by
  induction parts with
  | nil => rfl
  | cons part parts ih =>
    obtain ⟨hpart, hparts⟩ := List.forall_mem_cons.1 h
    have hcount : (part :: parts).countP isHalf = parts.countP isHalf + part.isHalf.toNat := by
      rw [List.countP_cons]
      cases part.isHalf <;> rfl
    rw [List.flatMap_cons, List.flatMap_append, List.length_append, length_value hpart, ih hparts,
      List.flatMap_cons, List.length_append, hcount]
    omega

/-- **Only halves are misread**: a row of parts is read as the units it denotes
exactly if no half is among them. -/
theorem value_eq_units_iff {parts : List StringPart} (h : ∀ part ∈ parts, part.WellFormed) :
    (parts.flatMap value).flatMap utf16 = parts.flatMap units
      ↔ ∀ part ∈ parts, part.isHalf = false := by
  constructor
  · intro heq
    have hlength := length_values h
    rw [heq] at hlength
    have hcount : parts.countP isHalf = 0 := by omega
    intro part hpart
    exact Bool.eq_false_iff.2 (List.countP_eq_zero.1 hcount part hpart)
  · intro hitems
    rw [List.flatMap_assoc]
    refine List.flatMap_congr fun part hpart => ?_
    cases part with
    | item i => rfl
    | half unit digits => cases hitems _ hpart

/-- Characters that stand for themselves. -/
def plain (cs : List Char) : List StringPart := cs.map fun c => item (.plain c)

theorem wellFormed_plain {cs : List Char} (h : ∀ c ∈ cs, IsPlainChar c) :
    ∀ part ∈ plain cs, part.WellFormed :=
  List.forall_mem_map.2 h

/-- A string with halves is read, each half as the text of its code. -/
theorem exists_program {parts : List StringPart} (h : ∀ part ∈ parts, part.WellFormed) :
    ∃ p, Program.parse ("let v = \"" ++ String.ofList (parts.flatMap text) ++ "\";") = .ok p
      ∧ p.stripSpans = declaresString (String.ofList (parts.flatMap value)) := by
  refine Program.exists_of_readsAs (readsAs_flatMap fun part hpart => (h part hpart).readsAs) ?_
  rw [List.mem_flatMap]
  rintro ⟨part, hpart, hmem⟩
  exact (h part hpart).null_not_mem hmem

/-- The codes of the pair of `c`, with characters that stand for themselves
around them. -/
def aroundPair (c : Char) (high low before after : List Char) : List StringPart :=
  plain before ++ [half (highUnit c) high, half (lowUnit c) low] ++ plain after

theorem wellFormed_aroundPair {c : Char} {high low before after : List Char}
    (hplain : ∀ x ∈ before ++ after, IsPlainChar x) (hhigh : high.length = 4)
    (hhighUnit : WritesHex (highUnit c) high) (hlow : low.length = 4)
    (hlowUnit : WritesHex (lowUnit c) low) :
    ∀ part ∈ aroundPair c high low before after, part.WellFormed := by
  obtain ⟨hbefore, hafter⟩ := List.forall_mem_append.1 hplain
  refine List.forall_mem_append.2 ⟨List.forall_mem_append.2 ⟨wellFormed_plain hbefore, ?_⟩,
    wellFormed_plain hafter⟩
  exact List.forall_mem_cons.2 ⟨⟨isSurrogate_highUnit c, hhigh, hhighUnit⟩,
    List.forall_mem_singleton.2 ⟨isSurrogate_lowUnit c, hlow, hlowUnit⟩⟩

theorem flatMap_units_plain (cs : List Char) : (plain cs).flatMap units = cs.flatMap utf16 := by
  rw [plain, List.flatMap_map]
  exact List.flatMap_congr fun c _ => List.flatMap_singleton utf16 c

/-- **The codes of a pair denote its character.** -/
theorem flatMap_units_aroundPair {c : Char} (hc : 0xFFFF < c.toNat)
    (high low before after : List Char) :
    (aroundPair c high low before after).flatMap units = (before ++ c :: after).flatMap utf16 := by
  have hpair : utf16 c = [highUnit c, lowUnit c] := if_neg (by omega)
  rw [aroundPair, List.flatMap_append, List.flatMap_append, flatMap_units_plain,
    flatMap_units_plain, List.flatMap_append, List.append_assoc]
  show _ = before.flatMap utf16 ++ (utf16 c ++ after.flatMap utf16)
  rw [hpair]
  rfl

end StringPart

/-- **Strings with halves.** A string is always read, each half as the text of
its code. It is read as the string it denotes exactly if there is no half, so
the codes of the pair of a character, between any characters that stand for
themselves, are never read as the character. -/
theorem Program.parse_halves {parts : List StringPart} (h : ∀ part ∈ parts, part.WellFormed) :
    ∃ p, Program.parse ("let v = \"" ++ String.ofList (parts.flatMap StringPart.text) ++ "\";")
        = .ok p
      ∧ p.stripSpans = declaresString (String.ofList (parts.flatMap StringPart.value))
      ∧ (∀ s : String, s.toList.flatMap utf16 = parts.flatMap StringPart.units →
        (p.stripSpans = declaresString s ↔ ∀ part ∈ parts, part.isHalf = false))
      ∧ ∀ (c : Char) (high low before after : List Char), 0xFFFF < c.toNat →
        parts = StringPart.aroundPair c high low before after →
        p.stripSpans ≠ declaresString (String.ofList (before ++ c :: after)) := by
  obtain ⟨p, hp, hstrip⟩ := StringPart.exists_program h
  have hread : ∀ s : String, s.toList.flatMap utf16 = parts.flatMap StringPart.units →
      (p.stripSpans = declaresString s ↔ ∀ part ∈ parts, part.isHalf = false) := by
    intro s hs
    rw [hstrip, declaresString_injective.eq_iff, ← String.toList_inj, String.toList_ofList,
      ← StringPart.value_eq_units_iff h, ← hs, flatMap_utf16_injective.eq_iff]
  refine ⟨p, hp, hstrip, hread, ?_⟩
  rintro c high low before after hc rfl hjoined
  have hdenotes := StringPart.flatMap_units_aroundPair hc high low before after
  have hnone := (hread _ (by rw [String.toList_ofList, hdenotes])).1 hjoined
  cases hnone (.half (highUnit c) high) (by simp [StringPart.aroundPair])

theorem wellFormed_face {before after : List Char} (h : ∀ x ∈ before ++ after, IsPlainChar x) :
    ∀ part ∈ StringPart.aroundPair '😀' "D83D".toList "DE00".toList before after,
      part.WellFormed :=
  StringPart.wellFormed_aroundPair h rfl ⟨0, by decide⟩ rfl ⟨0, by decide⟩

/-- A text with the codes of a pair between two letters. -/
theorem splitFace_parse_halves :
    utf16 '😀' = [0xD83D, 0xDE00]
      ∧ ∃ p, Program.parse "let v = \"a\\uD83D\\uDE00b\";" = .ok p
        ∧ p.stripSpans = declaresString "auD83DuDE00b"
        ∧ p.stripSpans ≠ declaresString "a😀b" := by
  refine ⟨by decide, ?_⟩
  have hplain : ∀ x ∈ ['a'] ++ ['b'], IsPlainChar x := by simp [IsPlainChar]
  obtain ⟨p, hp, hstrip, -, hpair⟩ := Program.parse_halves (wellFormed_face hplain)
  exact ⟨p, hp, hstrip, hpair _ _ _ _ _ (by decide) rfl⟩

/-- The codes of a pair alone are not read as their character. -/
theorem face_not_read :
    ¬∃ p, Program.parse "let v = \"\\uD83D\\uDE00\";" = .ok p
      ∧ p.stripSpans = declaresString "😀" := by
  rintro ⟨p, hp, hface⟩
  have hplain : ∀ x ∈ ([] ++ [] : List Char), IsPlainChar x := List.forall_mem_nil _
  obtain ⟨q, hq, hcodes⟩ := StringPart.exists_program (wellFormed_face hplain)
  obtain rfl : p = q := Except.ok.inj (hp.symm.trans hq)
  have hne : "uD83DuDE00" ≠ "😀" := by decide
  exact hne (declaresString_injective (hcodes.symm.trans hface))

end ScriptToShell
