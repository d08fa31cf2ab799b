import ScriptToShell.Proofs.RoundTrip
import ScriptToShell.Proofs.Tandem
import ScriptToShell.Tree.Numeral

/-!
# Strings with escapes

A character of a string can be written in several ways: as it is, as a letter
or a code behind a backslash, or as itself behind a backslash; and a backslash
before the end of a line stands for nothing at all. A `StringItem` is one of
these ways with the character it is meant for. A list of items spells a string
if every item is well-formed and the characters are those of the string
(`StringItem.Spells`). No item is a null character as it is, since a text may
not hold one. Whatever the choice of items, a string is read as the
one that is spelled (`Program.parse_spelled`).

The reader takes the text of a string apart on its own, without knowing where
an item ends, so this is shown one item at a time: `ReadsAs` says that a text
contributes its value and nothing else, whatever stands behind it. There is
one exception, since a question mark behind a backslash takes a line separator
with it; as the separator is a character of the string in any case, the value
is the same.

The code of a character is written in base sixteen, with zeros before it and
letters of either case (`WritesHex`).
-/

namespace ScriptToShell

open Scan Grammar
open Numeral (hexValue)

/-! ## Codes in base sixteen -/

/-- **Digits that write a number in base sixteen**, with any number of zeros
before it and letters of either case. -/
def WritesHex (n : Nat) (digits : List Char) : Prop :=
  ∃ zeros, digits.map Char.toLower = List.replicate zeros '0' ++ Nat.toDigits 16 n

theorem hexNumber_concat (digits : List Char) (d : Char) :
    hexNumber (digits ++ [d]) = 16 * hexNumber digits + hexValue d := by
  unfold hexNumber
  rw [List.foldl_append]
  rfl

theorem hexNumber_zeros_append (zeros : Nat) (digits : List Char) :
    hexNumber (List.replicate zeros '0' ++ digits) = hexNumber digits := by
  have hzeros : hexNumber (List.replicate zeros '0') = 0 := by
    induction zeros with
    | zero => rfl
    | succ zeros ih =>
      rw [List.replicate_succ', hexNumber_concat, ih]
      rfl
  unfold hexNumber at hzeros ⊢
  rw [List.foldl_append, hzeros]

theorem toLower_of_not_ascii {c : Char} (h : ¬c.toNat < 128) : c.toLower = c := by
  unfold Char.toLower
  refine dif_neg fun hupper => h ?_
  have hle : c.toNat ≤ 90 := hupper.2
  omega

theorem hexValue_toLower (d : Char) : hexValue d.toLower = hexValue d := by
  by_cases hd : d.toNat < 128
  · exact forall_ascii (P := fun d => hexValue d.toLower = hexValue d) (by decide) hd
  · rw [toLower_of_not_ascii hd]

theorem isHexDigit_toLower (d : Char) : isHexDigit d.toLower = isHexDigit d := by
  by_cases hd : d.toNat < 128
  · exact forall_ascii (P := fun d => isHexDigit d.toLower = isHexDigit d) (by decide) hd
  · rw [toLower_of_not_ascii hd]

theorem hexNumber_map_toLower (digits : List Char) :
    hexNumber (digits.map Char.toLower) = hexNumber digits := by
  show List.foldl (fun n d => 16 * n + hexValue d) 0 _
    = List.foldl (fun n d => 16 * n + hexValue d) 0 _
  rw [List.foldl_map]
  simp only [hexValue_toLower]

theorem hexValue_digitChar {n : Nat} (h : n < 16) : hexValue n.digitChar = n := by
  have hall : ∀ k : Fin 16, hexValue (Nat.digitChar k) = k := by decide
  exact hall ⟨n, h⟩

theorem isHexDigit_digitChar {n : Nat} (h : n < 16) : isHexDigit n.digitChar := by
  have hall : ∀ k : Fin 16, isHexDigit (Nat.digitChar k) := by decide
  exact hall ⟨n, h⟩

/-- The digits of a number, from those of its sixteenth. -/
theorem toDigits_induction {P : Nat → List Char → Prop}
    (small : ∀ n, n < 16 → P n [n.digitChar])
    (large : ∀ n digits, P (n / 16) digits → P n (digits ++ [(n % 16).digitChar])) (n : Nat) :
    P n (Nat.toDigits 16 n) := by
  induction n using Nat.strongRecOn with
  | ind n ih =>
    by_cases h : n < 16
    · rw [Nat.toDigits_of_lt_base h]
      exact small n h
    · rw [Nat.toDigits_of_base_le (by decide) (by omega)]
      exact large n _ (ih (n / 16) (by omega))

theorem hexNumber_toDigits (n : Nat) : hexNumber (Nat.toDigits 16 n) = n := by
  refine toDigits_induction (P := fun n digits => hexNumber digits = n) (fun n h => ?_)
    (fun n digits h => ?_) n
  · show hexNumber ([] ++ [n.digitChar]) = n
    rw [hexNumber_concat, hexValue_digitChar h]
    exact Nat.zero_add n
  · rw [hexNumber_concat, h, hexValue_digitChar (Nat.mod_lt n (by decide))]
    omega

theorem isHexDigit_of_mem_toDigits (n : Nat) : ∀ d ∈ Nat.toDigits 16 n, isHexDigit d := by
  refine toDigits_induction (P := fun _ digits => ∀ d ∈ digits, isHexDigit d) (fun n h => ?_)
    (fun n digits h d hd => ?_) n
  · exact List.forall_mem_singleton.2 (isHexDigit_digitChar h)
  · obtain hd | hd := List.mem_append.1 hd
    · exact h d hd
    · rw [List.mem_singleton.1 hd]
      exact isHexDigit_digitChar (Nat.mod_lt n (by decide))

namespace WritesHex

variable {n : Nat} {digits : List Char}

theorem hexNumber_eq (h : WritesHex n digits) : hexNumber digits = n := by
  obtain ⟨zeros, hdigits⟩ := h
  rw [← hexNumber_map_toLower, hdigits, hexNumber_zeros_append, hexNumber_toDigits]

theorem ne_nil (h : WritesHex n digits) : digits ≠ [] := by
  rintro rfl
  obtain ⟨zeros, hdigits⟩ := h
  exact Nat.toDigits_ne_nil (List.append_eq_nil_iff.1 hdigits.symm).2

theorem all_isHexDigit (h : WritesHex n digits) : digits.all isHexDigit := by
  obtain ⟨zeros, hdigits⟩ := h
  refine List.all_eq_true.2 fun d hd => ?_
  rw [← isHexDigit_toLower]
  have hmem : d.toLower ∈ List.replicate zeros '0' ++ Nat.toDigits 16 n := by
    rw [← hdigits]
    exact List.mem_map_of_mem hd
  obtain hmem | hmem := List.mem_append.1 hmem
  · rw [List.eq_of_mem_replicate hmem]
    rfl
  · exact isHexDigit_of_mem_toDigits n _ hmem

/-- The code of a character leads back to it. -/
theorem charOfHex?_eq_some {c : Char} (h : WritesHex c.toNat digits) :
    charOfHex? digits = some c := by
  have hvalid : (hexNumber digits).isValidChar := by
    rw [h.hexNumber_eq]
    exact c.valid
  show (if _ then some (Char.ofNat (hexNumber digits)) else none) = _
  rw [if_pos ⟨h.ne_nil, h.all_isHexDigit, hvalid⟩, h.hexNumber_eq, Char.ofNat_toNat]

/-- A code that no character has leads nowhere. -/
theorem charOfHex?_eq_none (h : WritesHex n digits) (hn : ¬n.isValidChar) :
    charOfHex? digits = none := by
  refine if_neg fun hvalid => hn ?_
  rw [← h.hexNumber_eq]
  exact hvalid.2.2

end WritesHex

/-! ## Reading one item -/

/-- What is read of a string from the text behind its opening quote. -/
def stringBody (cs : List Char) : Option (List Char × Nat) := stringFrom '"' (cs.length + 1) cs

theorem escape?_takes : Lexeme.Takes 1 escape? := by
  intro cs count h
  unfold escape? at h
  split at h
  · split at h
    · split at h <;> cases h
      decide
    · split at h
      · exact nameEscape?_takes _ count h
      · split at h
        · cases h
          exact Nat.le_add_left 1 _
        · split at h <;> cases h <;> decide
  · cases h

/-- The bound on what is read does not matter if it is large enough. -/
theorem stringFrom_enough {quote : Char} {n m : Nat} {cs : List Char} (hn : cs.length < n)
    (hm : cs.length < m) : stringFrom quote n cs = stringFrom quote m cs := by
  induction n generalizing m cs with
  | zero => cases hn
  | succ n ih =>
    cases m with
    | zero => cases hm
    | succ m =>
      cases cs with
      | nil => rfl
      | cons c cs =>
        have htail : ∀ ds : List Char, ds.length < (c :: cs).length →
            stringFrom quote n ds = stringFrom quote m ds := fun ds hds =>
          ih (by omega) (by omega)
        have hrest := htail cs (Nat.lt_succ_self _)
        rw [stringFrom, stringFrom, hrest]
        cases hescape : escape? (c :: cs) with
        | none => rfl
        | some count =>
          have hcount := escape?_takes _ count hescape
          have hdrop := htail ((c :: cs).drop count) (by
            rw [List.length_drop, List.length_cons]
            omega)
          simp only [Option.bind_eq_bind, Option.bind_some, hdrop]

/-- A character that a string may hold as it is. -/
def IsPlainChar (c : Char) : Prop :=
  c ≠ '"' ∧ c ≠ '\\' ∧ c ≠ '\r' ∧ c ≠ '\n' ∧ c ≠ '\x00'

theorem stringBody_plain {c : Char} (h : IsPlainChar c) (cs : List Char) :
    stringBody (c :: cs) = (stringBody cs).map fun found => (c :: found.1, found.2 + 1) := by
  obtain ⟨hquote, hslash, hreturn, hfeed, -⟩ := h
  show stringFrom '"' (cs.length + 1 + 1) (c :: cs) = _
  rw [stringFrom, if_neg hquote, if_neg (by simp [hfeed, hreturn]), if_neg hslash]
  cases h : stringFrom '"' (cs.length + 1) cs <;> simp [stringBody, h]

theorem stringBody_escape {cs : List Char} {count : Nat} (h : escape? ('\\' :: cs) = some count) :
    stringBody ('\\' :: cs) = (stringBody (('\\' :: cs).drop count)).map fun found =>
      (unescape ((('\\' :: cs).take count).drop 1) ++ found.1, found.2 + count) := by
  have hcount := escape?_takes _ count h
  have henough : stringFrom '"' ('\\' :: cs).length (('\\' :: cs).drop count)
      = stringBody (('\\' :: cs).drop count) := by
    refine stringFrom_enough ?_ (Nat.lt_succ_self _)
    rw [List.length_drop, List.length_cons]
    omega
  show stringFrom '"' (('\\' :: cs).length + 1) ('\\' :: cs) = _
  rw [stringFrom, if_neg (by decide), if_neg (by decide), if_pos rfl, h]
  simp only [Option.bind_eq_bind, Option.bind_some, henough]
  cases stringBody (('\\' :: cs).drop count) <;> rfl

/-- **A text that contributes a value** to the string it stands in, whatever
stands behind it. Only a line feed could change that, and it would not be part
of a string. -/
structure ReadsAs (text value : List Char) : Prop where
  /-- It does not start with a line feed. -/
  head : text.head? ≠ some '\n'
  /-- It is read as its value. -/
  reads : ∀ rest : List Char, rest.head? ≠ some '\n' →
    stringBody (text ++ rest)
      = (stringBody rest).map fun found => (value ++ found.1, found.2 + text.length)

/-- **Texts in a row** contribute their values in a row. -/
theorem readsAs_flatMap {α : Type} {text value : α → List Char} {items : List α}
    (h : ∀ i ∈ items, ReadsAs (text i) (value i)) :
    ReadsAs (items.flatMap text) (items.flatMap value) := by
  induction items with
  | nil => exact ⟨by simp, fun rest _ => by simp⟩
  | cons i is ih =>
    obtain ⟨hi, his⟩ := List.forall_mem_cons.1 h
    obtain ⟨hhead, hreads⟩ := ih his
    have happend : ∀ {as bs : List Char}, as.head? ≠ some '\n' → bs.head? ≠ some '\n' →
        (as ++ bs).head? ≠ some '\n' := by
      intro as bs has hbs
      cases as with
      | nil => exact hbs
      | cons a as => exact has
    refine ⟨happend hi.head hhead, fun rest hrest => ?_⟩
    rw [List.flatMap_cons, List.flatMap_cons, List.append_assoc, hi.reads _ (happend hhead hrest),
      hreads rest hrest, Option.map_map]
    congr 1
    funext found
    simp [Nat.add_comm, Nat.add_left_comm]

theorem readsAs_plain {c : Char} (h : IsPlainChar c) : ReadsAs [c] [c] := by
  refine ⟨fun hfeed => h.2.2.2.1 (Option.some.inj hfeed), fun rest _ => ?_⟩
  exact stringBody_plain h rest

/-- An escape contributes what it stands for, if it ends where it is meant
to. -/
theorem readsAs_escape (body : List Char)
    (h : ∀ rest : List Char, rest.head? ≠ some '\n' →
      escape? ('\\' :: (body ++ rest)) = some (body.length + 1)) :
    ReadsAs ('\\' :: body) (unescape body) := by
  refine ⟨by simp, fun rest hrest => ?_⟩
  rw [List.cons_append, stringBody_escape (h rest hrest)]
  simp

/-! ### The ways to write a character -/

/-- The letters that stand for control characters behind a backslash. -/
def controlLetters : List (Char × Char) :=
  [('n', '\n'), ('t', '\t'), ('r', '\r'), ('b', '\x08'), ('f', '\x0c'), ('v', '\x0b')]

theorem readsAs_control {letter c : Char} (h : (letter, c) ∈ controlLetters) :
    ReadsAs ['\\', letter] [c] := by
  simp only [controlLetters, List.mem_cons, Prod.mk.injEq, List.not_mem_nil, or_false] at h
  obtain ⟨rfl, rfl⟩ | ⟨rfl, rfl⟩ | ⟨rfl, rfl⟩ | ⟨rfl, rfl⟩ | ⟨rfl, rfl⟩ | ⟨rfl, rfl⟩ := h
  all_goals exact readsAs_escape _ fun _ _ => rfl

/-- A code with a fixed number of digits, whatever stands behind it. -/
theorem codeDigits_append {count : Nat} {digits : List Char} (hlength : digits.length = count)
    (hdigits : digits.all isHexDigit) (rest : List Char) :
    count ≤ (digits ++ rest).length ∧ ((digits ++ rest).take count).all isHexDigit := by
  rw [← hlength, List.take_left, List.length_append]
  exact ⟨Nat.le_add_right _ _, hdigits⟩

theorem readsAs_byteCode {c : Char} {digits : List Char} (hlength : digits.length = 2)
    (h : WritesHex c.toNat digits) : ReadsAs ('\\' :: 'x' :: digits) [c] := by
  have hvalue : unescape ('x' :: digits) = [c] := by
    show ((charOfHex? digits).map ([·])).getD _ = _
    rw [h.charOfHex?_eq_some]
    rfl
  rw [← hvalue]
  refine readsAs_escape _ fun rest _ => ?_
  show (if 2 ≤ (digits ++ rest).length ∧ ((digits ++ rest).take 2).all isHexDigit then some 4
    else none) = some (digits.length + 1 + 1)
  rw [if_pos (codeDigits_append hlength h.all_isHexDigit rest), hlength]

/-- The text of a code with four digits, which is never a code in braces. -/
theorem escape?_unitCode {digits : List Char} (hlength : digits.length = 4)
    (hdigits : digits.all isHexDigit) (rest : List Char) :
    escape? ('\\' :: 'u' :: (digits ++ rest)) = some 6 := by
  show nameEscape? ('\\' :: 'u' :: (digits ++ rest)) = some 6
  have hbrace : ∀ ds, digits ++ rest ≠ '\x7b' :: ds := by
    rintro ds hds
    cases digits with
    | nil => cases hlength
    | cons d ds' =>
      obtain ⟨rfl, -⟩ := List.cons.inj hds
      cases (List.all_eq_true.1 hdigits) _ List.mem_cons_self
  rw [nameEscape?.eq_2 _ hbrace, if_pos (codeDigits_append hlength hdigits rest)]

theorem unescape_unitCode {digits : List Char} (hdigits : digits.all isHexDigit) :
    unescape ('u' :: digits) = ((charOfHex? digits).map ([·])).getD ('u' :: digits) := by
  cases digits with
  | nil => rfl
  | cons d ds =>
    have hbrace : d ≠ '\x7b' := by
      rintro rfl
      cases (List.all_eq_true.1 hdigits) _ List.mem_cons_self
    unfold unescape
    split <;> simp_all

theorem readsAs_unitCode {c : Char} {digits : List Char} (hlength : digits.length = 4)
    (h : WritesHex c.toNat digits) : ReadsAs ('\\' :: 'u' :: digits) [c] := by
  have hvalue : unescape ('u' :: digits) = [c] := by
    rw [unescape_unitCode h.all_isHexDigit, h.charOfHex?_eq_some]
    rfl
  rw [← hvalue]
  refine readsAs_escape _ fun rest _ => ?_
  rw [List.cons_append, escape?_unitCode hlength h.all_isHexDigit, List.length_cons, hlength]

theorem readsAs_pointCode {c : Char} {digits : List Char} (h : WritesHex c.toNat digits) :
    ReadsAs ('\\' :: 'u' :: '\x7b' :: (digits ++ ['\x7d'])) [c] := by
  have hvalue : unescape ('u' :: '\x7b' :: (digits ++ ['\x7d'])) = [c] := by
    show (if (digits ++ ['\x7d']).getLast? = some '\x7d' then
      ((charOfHex? (digits ++ ['\x7d']).dropLast).map ([·])).getD _ else _) = _
    rw [List.getLast?_concat, if_pos rfl, List.dropLast_concat, h.charOfHex?_eq_some]
    rfl
  rw [← hvalue]
  refine readsAs_escape _ fun rest _ => ?_
  have hrun : (digits ++ ['\x7d'] ++ rest).takeWhile isHexDigit = digits := by
    rw [List.append_assoc, List.takeWhile_append_of_pos (List.all_eq_true.1 h.all_isHexDigit)]
    simp [isHexDigit]
  have hend : ((digits ++ ['\x7d'] ++ rest).drop digits.length).head? = some '\x7d' := by
    rw [List.append_assoc, List.drop_left]
    rfl
  show (if ((digits ++ ['\x7d'] ++ rest).takeWhile isHexDigit).length ≠ 0
      ∧ ((digits ++ ['\x7d'] ++ rest).drop
        ((digits ++ ['\x7d'] ++ rest).takeWhile isHexDigit).length).head? = some '\x7d'
    then some (((digits ++ ['\x7d'] ++ rest).takeWhile isHexDigit).length + 4) else none) = _
  rw [hrun, if_pos ⟨by simpa using h.ne_nil, hend⟩]
  simp

/-- The characters that are not themselves behind a backslash. -/
def specialChars : List Char := "xu01234567ntrbfv\n\r\u2028\u2029\x00".toList

theorem mem_specialChars_of_isOctalDigit {c : Char} (h : isOctalDigit c) : c ∈ specialChars := by
  have hascii : c.toNat < 128 := by
    simp only [isOctalDigit, Bool.and_eq_true, decide_eq_true_eq] at h
    have hle : c.toNat ≤ 55 := h.2
    omega
  exact forall_ascii (P := fun c => isOctalDigit c → c ∈ specialChars) (by decide) hascii h

section Verbatim

variable {c : Char} (h : c ∉ specialChars)
include h

theorem ne_of_mem_specialChars : ∀ d ∈ specialChars, c ≠ d := fun _ hd hcd => h (hcd ▸ hd)

theorem unescape_verbatim : unescape [c] = [c] := by
  have hne := ne_of_mem_specialChars h
  unfold unescape
  split
  case h_14 => rfl
  -- Every other rule starts with one of the special characters.
  all_goals
    rename_i hbody
    exact absurd (List.head_eq_of_cons_eq hbody) (hne _ (by decide))

theorem escape?_verbatim {rest : List Char} (hrest : c = '?' → rest.head?.any isBreak = false) :
    escape? ('\\' :: c :: rest) = some 2 := by
  have hne := ne_of_mem_specialChars h
  have hoctal : isOctalDigit c = false :=
    Bool.eq_false_iff.2 fun hc => h (mem_specialChars_of_isOctalDigit hc)
  have hbreak : ¬((c = '\r' ∨ c = '?') ∧ rest.head?.any isBreak) := by
    rintro ⟨hreturn | hquestion, hany⟩
    · exact hne '\r' (by decide) hreturn
    · rw [hrest hquestion] at hany
      cases hany
  rw [escape?, if_neg (hne 'x' (by decide)), if_neg (hne 'u' (by decide)),
    if_neg (by simp [hoctal]), if_neg hbreak]

theorem readsAs_verbatim_of_ne (hc : c ≠ '?') : ReadsAs ['\\', c] [c] := by
  have hreads := readsAs_escape [c] fun rest _ =>
    escape?_verbatim h fun hquestion => absurd hquestion hc
  rwa [unescape_verbatim h] at hreads

end Verbatim

/-- A question mark takes a line separator with it, which is a character of
the string either way. -/
theorem readsAs_question : ReadsAs ['\\', '?'] ['?'] := by
  refine ⟨by decide, fun rest hrest => ?_⟩
  by_cases hany : rest.head?.any isBreak
  · cases rest with
    | nil => cases hany
    | cons s rest =>
      have hbreak : isBreak s := hany
      have hfeed : s ≠ '\n' := fun hs => hrest (congrArg some hs)
      have hplain : IsPlainChar s := by
        refine ⟨?_, ?_, ?_, hfeed, ?_⟩ <;> (rintro rfl; cases hbreak)
      have hescape : escape? ('\\' :: '?' :: s :: rest) = some 3 := by
        show (if ('?' = '\r' ∨ '?' = '?') ∧ isBreak s then some 3 else some 2) = some 3
        rw [if_pos ⟨.inr rfl, hbreak⟩]
      show stringBody ('\\' :: '?' :: s :: rest) = _
      rw [stringBody_escape hescape, stringBody_plain hplain, Option.map_map]
      rfl
  · have hescape : escape? ('\\' :: '?' :: rest) = some 2 :=
      escape?_verbatim (by decide) fun _ => Bool.eq_false_iff.2 hany
    show stringBody ('\\' :: '?' :: rest) = _
    rw [stringBody_escape hescape]
    rfl

theorem readsAs_verbatim {c : Char} (h : c ∉ specialChars) : ReadsAs ['\\', c] [c] := by
  by_cases hc : c = '?'
  · rw [hc]
    exact readsAs_question
  · exact readsAs_verbatim_of_ne h hc

theorem readsAs_feed : ReadsAs ['\\', '\n'] [] := readsAs_escape _ fun _ _ => rfl

theorem readsAs_returnFeed : ReadsAs ['\\', '\r', '\n'] [] := readsAs_escape _ fun _ _ => rfl

/-! ## Strings that are spelled -/

/-- **A way to write a character** of a string between double quotes, or
nothing. -/
inductive StringItem where
  /-- The character as it is. -/
  | plain (c : Char)
  /-- A letter for a control character. -/
  | control (letter c : Char)
  /-- The code in two digits. -/
  | byteCode (c : Char) (digits : List Char)
  /-- The code in four digits. -/
  | unitCode (c : Char) (digits : List Char)
  /-- The code in any number of digits between braces. -/
  | pointCode (c : Char) (digits : List Char)
  /-- The character as it is behind a backslash. -/
  | verbatim (c : Char)
  /-- Nothing: a backslash before a line feed. -/
  | feed
  /-- Nothing: a backslash before a carriage return and a line feed. -/
  | returnFeed

namespace StringItem

/-- What stands in the source. -/
def text : StringItem → List Char
  | plain c => [c]
  | control letter _ => ['\\', letter]
  | byteCode _ digits => '\\' :: 'x' :: digits
  | unitCode _ digits => '\\' :: 'u' :: digits
  | pointCode _ digits => '\\' :: 'u' :: '\x7b' :: (digits ++ ['\x7d'])
  | verbatim c => ['\\', c]
  | feed => ['\\', '\n']
  | returnFeed => ['\\', '\r', '\n']

/-- What it is meant for. -/
def chars : StringItem → List Char
  | plain c | control _ c | byteCode c _ | unitCode c _ | pointCode c _ | verbatim c => [c]
  | feed | returnFeed => []

/-- **An item that keeps the rules of its kind.** -/
def WellFormed : StringItem → Prop
  | plain c => IsPlainChar c
  | control letter c => (letter, c) ∈ controlLetters
  | byteCode c digits => digits.length = 2 ∧ WritesHex c.toNat digits
  | unitCode c digits => digits.length = 4 ∧ WritesHex c.toNat digits
  | pointCode c digits => WritesHex c.toNat digits
  | verbatim c => c ∉ specialChars
  | feed | returnFeed => True

/-- **Items that spell a string.** -/
structure Spells (items : List StringItem) (s : String) : Prop where
  /-- Each item keeps its rules. -/
  wellFormed : ∀ i ∈ items, i.WellFormed
  /-- Their characters are those of the string. -/
  chars : items.flatMap chars = s.toList

/-- An item is read as what it is meant for. -/
theorem WellFormed.readsAs {i : StringItem} (h : i.WellFormed) : ReadsAs i.text i.chars := by
  cases i with
  | plain c => exact readsAs_plain h
  | control letter c => exact readsAs_control h
  | byteCode c digits => exact readsAs_byteCode h.1 h.2
  | unitCode c digits => exact readsAs_unitCode h.1 h.2
  | pointCode c digits => exact readsAs_pointCode h
  | verbatim c => exact readsAs_verbatim h
  | feed => exact readsAs_feed
  | returnFeed => exact readsAs_returnFeed

/-- No item is written with a null character. -/
theorem WellFormed.null_not_mem {i : StringItem} (h : i.WellFormed) : '\x00' ∉ i.text := by
  have hcode : ∀ {n : Nat} {digits : List Char}, WritesHex n digits → '\x00' ∉ digits :=
    fun hdigits hmem => absurd (List.all_eq_true.1 hdigits.all_isHexDigit _ hmem) (by decide)
  cases i with
  | plain c => exact fun hmem => h.2.2.2.2 (List.mem_singleton.1 hmem).symm
  | control letter c =>
    have hletters : controlLetters.all (·.1 ≠ '\x00') := by decide
    have hletter := of_decide_eq_true (List.all_eq_true.1 hletters _ h)
    simpa [text] using Ne.symm hletter
  | byteCode c digits => simpa [text] using hcode h.2
  | unitCode c digits => simpa [text] using hcode h.2
  | pointCode c digits => simpa [text] using hcode h
  | verbatim c => simpa [text] using (ne_of_mem_specialChars h '\x00' (by decide)).symm
  | feed => decide
  | returnFeed => decide

end StringItem

/-! ## Programs with a string -/

/-- A text in quotes is read as the string that it contributes. -/
theorem string_of_readsAs {text value : List Char} (h : ReadsAs text value) (pos : Nat)
    (rest : List Char) :
    Reader.string ⟨pos, '"' :: (text ++ '"' :: rest)⟩
      = some (String.ofList value, ⟨pos + byteLength ('"' :: (text ++ ['"'])), rest⟩) := by
  have hbody : stringBody (text ++ '"' :: rest) = some (value, text.length + 1) := by
    rw [h.reads _ (by simp)]
    show (some ([], 1)).map _ = _
    simp [Nat.add_comm]
  have hstring : string? ('"' :: (text ++ '"' :: rest))
      = some (value, ('"' :: (text ++ ['"'])).length) := by
    show (stringBody (text ++ '"' :: rest)).map _ = _
    rw [hbody]
    simp
  have hsplit : '"' :: (text ++ '"' :: rest) = '"' :: (text ++ ['"']) ++ rest := by simp
  simp only [Reader.string, Reader.bind_apply, Reader.ahead_apply, Option.bind_some, hstring,
    Reader.modify_apply, Reader.pure_apply]
  rw [hsplit, Cursor.skip_append]

/-- A declaration of `v` with a string as its value. -/
def declaresString (value : String) : Program :=
  ⟨[.declaration .let [⟨.identifier "v" .nowhere, some (.literal (.string value) .nowhere),
    .nowhere⟩] .nowhere], .nowhere⟩

theorem declaresString_injective : Function.Injective declaresString := by
  intro s t h
  simpa [declaresString] using h

/-- **A declaration with a text in quotes** is read as one with the string that
the text contributes. -/
theorem Program.exists_of_readsAs {text value : List Char} (h : ReadsAs text value)
    (hnull : '\x00' ∉ text) :
    ∃ p, Program.parse ("let v = \"" ++ String.ofList text ++ "\";") = .ok p
      ∧ p.stripSpans = declaresString (String.ofList value) := by
  have htext : ("let v = \"" ++ String.ofList text ++ "\";").toList
      = 'l' :: 'e' :: 't' :: ' ' :: 'v' :: ' ' :: '=' :: ' ' :: '"' :: (text ++ '"' :: [';']) := by
    simp
  generalize "let v = \"" ++ String.ofList text ++ "\";" = source at htext ⊢
  have hstring := string_of_readsAs h 8 [';']
  generalize 8 + byteLength ('"' :: (text ++ ['"'])) = stop at hstring
  have hends : EndsExpression [';'] := endsExpression_of (.inl rfl)
  have hsolid : Solid ('"' :: (text ++ '"' :: [';'])) :=
    solid_cons rfl (by decide) (by decide) (by decide)
  obtain ⟨n, hn⟩ : ∃ n, source.toList.length = n + 1 :=
    ⟨_, (congrArg List.length htext).trans rfl⟩
  have hexpression : (readers (n + 1)).expression true 0 ⟨8, '"' :: (text ++ '"' :: [';'])⟩
      = some (⟨.literal (.string (String.ofList value)) ⟨8, stop⟩, .other⟩, ⟨stop, [';']⟩) :=
    expressionRule_of_operand (operandRule_of_string hstring hends.toEndsOperand) hends
  have hlet := statementRule_of_let (letDeclaration_of_expression hsolid hexpression)
  rw [← htext, ← hn] at hlet
  have hnone : '\x00' ∉ source.toList := by
    rw [htext]
    simpa using hnull
  have hstart : Solid source.toList := by
    rw [htext]
    exact solid_cons rfl (by decide) (by decide) (by decide)
  have hne : source.toList ≠ [] := by
    rw [htext]
    exact List.cons_ne_nil _ _
  have hline : interpreterLine (.at source.toList 0) = none := by
    show interpreterLine ⟨0, source.toList⟩ = none
    rw [htext]
    rfl
  obtain ⟨p, hp, hbody⟩ := Program.exists_of_statement hnone hstart hne hline rfl hlet
  refine ⟨p, hp, ?_⟩
  rw [Program.stripSpans, hbody]
  simp [Stmt.stripSpansAll_eq_map, Stmt.stripSpans, Declarator.stripSpans, Pattern.stripSpans,
    Expr.stripSpans, declaresString]

/-- **A string is read as it is spelled**, in whatever way each character is
written and wherever lines are joined. -/
theorem Program.parse_spelled {items : List StringItem} {s : String}
    (h : StringItem.Spells items s) :
    ∃ p, Program.parse ("let v = \"" ++ String.ofList (items.flatMap StringItem.text) ++ "\";")
        = .ok p
      ∧ p.stripSpans = declaresString s := by
  have hreads := readsAs_flatMap fun i hi => (h.wellFormed i hi).readsAs
  rw [h.chars] at hreads
  have hnull : '\x00' ∉ items.flatMap StringItem.text := by
    rw [List.mem_flatMap]
    rintro ⟨i, hi, hmem⟩
    exact (h.wellFormed i hi).null_not_mem hmem
  obtain ⟨p, hp, hstrip⟩ := Program.exists_of_readsAs hreads hnull
  rw [String.ofList_toList] at hstrip
  exact ⟨p, hp, hstrip⟩

/-- Items of all kinds, with lines joined between them. -/
def mixedItems : List StringItem :=
  [.plain 'é', .feed, .control 'n' '\n', .verbatim '"', .verbatim '?', .plain '\u2028',
    .byteCode 'ÿ' "fF".toList, .returnFeed, .unitCode '€' "20aC".toList,
    .pointCode '😀' "001F600".toList]

theorem mixedItems_parse_spelled :
    StringItem.Spells mixedItems "é\n\"?\u2028ÿ€😀"
      ∧ String.ofList (mixedItems.flatMap StringItem.text)
        = "é\\\n\\n\\\"\\?\u2028\\xfF\\\r\n\\u20aC\\u\x7b001F600\x7d"
      ∧ ∃ p, Program.parse
          ("let v = \"" ++ String.ofList (mixedItems.flatMap StringItem.text) ++ "\";") = .ok p
        ∧ p.stripSpans = declaresString "é\n\"?\u2028ÿ€😀" := by
  have hspells : StringItem.Spells mixedItems "é\n\"?\u2028ÿ€😀" := by
    refine ⟨?_, by decide⟩
    have hline : ('n', '\n') ∈ controlLetters := by decide
    have hquote : '"' ∉ specialChars := by decide
    have hquestion : '?' ∉ specialChars := by decide
    have hbyte : WritesHex 'ÿ'.toNat "fF".toList := ⟨0, by decide⟩
    have hunit : WritesHex '€'.toNat "20aC".toList := ⟨0, by decide⟩
    have hpoint : WritesHex '😀'.toNat "001F600".toList := ⟨2, by decide⟩
    simp only [mixedItems, List.forall_mem_cons]
    exact ⟨⟨by decide, by decide, by decide, by decide, by decide⟩, trivial, hline, hquote,
      hquestion, ⟨by decide, by decide, by decide, by decide, by decide⟩, ⟨rfl, hbyte⟩, trivial,
      ⟨rfl, hunit⟩, hpoint, List.forall_mem_nil _⟩
  exact ⟨hspells, by decide, Program.parse_spelled hspells⟩

/-- A null character, which is none of those that need an escape, is not read
as it is. -/
theorem nullItem_not_read :
    '\x00' ∉ ['"', '\\', '\r', '\n']
      ∧ ¬∃ p, Program.parse
          ("let v = \"" ++ String.ofList (StringItem.text (.plain '\x00')) ++ "\";") = .ok p
        ∧ p.stripSpans = declaresString "\x00" := by
  refine ⟨by decide, ?_⟩
  rintro ⟨p, hp, -⟩
  exact (Program.parse_eq_ok_iff.1 hp).1 (by decide)

end ScriptToShell
