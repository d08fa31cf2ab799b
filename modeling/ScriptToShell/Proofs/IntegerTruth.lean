import Mathlib.Data.List.TakeWhile
import Mathlib.Data.Nat.Digits.Defs
import Mathlib.Tactic.MkIffOfInductiveProp
import ScriptToShell.Proofs.Magnitude

/-!
# The truth of integers

A condition that is an integer is decided from its text, which goes through
several hands: separators are taken out, letters made small, a suffix and a sign
taken off, and what is left is read in the base that its first two characters
announce. In another base than ten it is read as a word, so a large integer is
not read at all.

An `IntegerText` is a text of this kind, of any length. It denotes a number
(`IntegerText.value`) by the digits of its base and without a bound, and its
truth is that of the number: it counts as false exactly if all its digits are
zero (`integer_truth`).
-/

namespace ScriptToShell.Numeral

/-! ## Integers as they are written -/

/-- **The base an integer is written in.** -/
inductive Radix where
  | decimal
  | hexadecimal
  | octal
  | binary
deriving DecidableEq, Repr

namespace Radix

/-- How many digits a base has. -/
def base : Radix → Nat
  | .decimal => 10
  | .hexadecimal => 16
  | .octal => 8
  | .binary => 2

/-- What announces a base in front of the digits. -/
def marks : Radix → List (List Char)
  | .decimal => [[]]
  | .hexadecimal => [['0', 'x'], ['0', 'X']]
  | .octal => [['0', 'o'], ['0', 'O']]
  | .binary => [['0', 'b'], ['0', 'B']]

/-- What announces a base, in small letters. -/
def smallMark : Radix → List Char
  | .decimal => []
  | .hexadecimal => ['0', 'x']
  | .octal => ['0', 'o']
  | .binary => ['0', 'b']

/-- The characters that are digits of a base. -/
def digits : Radix → List Char
  | .decimal => "0123456789".toList
  | .hexadecimal => "0123456789abcdefABCDEF".toList
  | .octal => "01234567".toList
  | .binary => "01".toList

/-- **A digit of a base.** -/
abbrev Digit (radix : Radix) : Type := { c : Char // c ∈ radix.digits }

end Radix

/-- The number a digit stands for: its place among the digits. -/
def digitNumber (c : Char) : Nat := "0123456789abcdef".toList.idxOf c.toLower

/-- **An integer as it is written**: a sign, the mark of its base, digits with
separators between them, and the suffix of a big integer. -/
structure IntegerText where
  /-- Whether a minus sign comes first. -/
  negative : Bool
  /-- The base. -/
  radix : Radix
  /-- The mark of the base. -/
  mark : { m : List Char // m ∈ radix.marks }
  /-- The first digit. -/
  first : radix.Digit
  /-- The other digits, each with the number of separators before it. -/
  others : List (Nat × radix.Digit)
  /-- Whether the suffix of a big integer comes last. -/
  big : Bool

namespace IntegerText

variable (n : IntegerText)

/-- The digits of an integer, the highest one first. -/
def digits : List n.radix.Digit := n.first :: n.others.map Prod.snd

/-- The digits of an integer with the separators between them. -/
def written : List Char :=
  n.first.1 :: n.others.flatMap fun d => List.replicate d.1 '_' ++ [d.2.1]

/-- **The text of an integer.** -/
def text : String :=
  String.ofList ((if n.negative then ['-'] else []) ++ n.mark.1 ++ n.written
    ++ if n.big then ['n'] else [])

/-- **The number an integer denotes**, up to the sign. -/
def value : Nat := Nat.ofDigits n.radix.base (n.digits.map (digitNumber ·.1)).reverse

example : text ⟨true, .hexadecimal, ⟨['0', 'X'], by decide⟩, ⟨'0', by decide⟩,
    [(0, ⟨'0', by decide⟩), (1, ⟨'f', by decide⟩)], true⟩ = "-0X00_fn" := by decide

/-- The digits of an integer in small letters. -/
def lowered : List Char := n.digits.map (·.1.toLower)

end IntegerText

/-! ## Digits -/

/-- **What a digit is to its readers**: neither separator, sign nor suffix, and
in small letters a digit of the base whose number is its place. -/
@[mk_iff]
structure IsDigit (base : Nat) (c : Char) : Prop where
  ne_separator : c ≠ '_'
  ne_minus : c.toLower ≠ '-'
  ne_plus : c.toLower ≠ '+'
  ne_suffix : c.toLower ≠ 'n'
  isDigitOf : isDigitOf base c.toLower = true
  hexValue_eq : hexValue c.toLower = digitNumber c
  number_eq_zero : digitNumber c = 0 ↔ c = '0'

instance (base : Nat) (c : Char) : Decidable (IsDigit base c) :=
  decidable_of_iff' _ (isDigit_iff base c)

theorem Radix.isDigit {radix : Radix} (d : radix.Digit) : IsDigit radix.base d.1 := by
  have hall : radix.digits.all (fun c => IsDigit radix.base c) = true := by
    cases radix <;> decide
  exact of_decide_eq_true (List.all_eq_true.1 hall d.1 d.2)

/-- The number of a run of digits by the powers of the base. -/
theorem digitsValue_eq_ofDigits (base : Nat) (number : Char → Nat) (digits : List Char) :
    digitsValue base number digits = Nat.ofDigits base (digits.map number).reverse := by
  induction digits using List.reverseRecOn with
  | nil => rfl
  | append_singleton digits d ih =>
    rw [digitsValue_append_one, ih, List.map_append, List.map_singleton, List.reverse_concat,
      Nat.ofDigits_cons, Nat.add_comm]

theorem ofDigits_eq_zero_iff {base : Nat} (h : base ≠ 0) (digits : List Nat) :
    Nat.ofDigits base digits = 0 ↔ ∀ d ∈ digits, d = 0 := by
  refine ⟨fun hzero => Nat.digits_zero_of_eq_zero h hzero, fun hzero => ?_⟩
  induction digits with
  | nil => rfl
  | cons d digits ih =>
    rw [List.forall_mem_cons] at hzero
    rw [Nat.ofDigits_cons, hzero.1, ih hzero.2, Nat.mul_zero]

theorem decimal?_of_digits {cs : List Char} (hne : cs ≠ []) (h : ∀ c ∈ cs, c.isDigit = true) :
    decimal? cs = some (.decimal (digitsValue 10 hexValue cs) cs.length 0) := by
  unfold decimal?
  rw [List.takeWhile_eq_self_iff.2 h, List.dropWhile_eq_nil_iff.2 h]
  simp [hne, exponent?]

/-- **Decimal digits are read as a decimal** without a fraction or an
exponent. -/
theorem float?_of_digits {cs : List Char} (hne : cs ≠ [])
    (h : ∀ c ∈ cs, c ∈ Radix.decimal.digits) :
    float? cs = some (.decimal (digitsValue 10 hexValue cs) cs.length 0) := by
  have hall : Radix.decimal.digits.all (fun c => c.isDigit ∧ c ≠ '+' ∧ c ≠ '-'
      ∧ c.toLower ≠ 'i' ∧ c.toLower ≠ 'n') = true := by decide
  have hdigit : ∀ c ∈ cs, c.isDigit ∧ c ≠ '+' ∧ c ≠ '-' ∧ c.toLower ≠ 'i' ∧ c.toLower ≠ 'n' :=
    fun c hc => of_decide_eq_true (List.all_eq_true.1 hall c (h c hc))
  have hdecimal := decimal?_of_digits hne fun c hc => (hdigit c hc).1
  obtain ⟨c, ds, rfl⟩ := List.exists_cons_of_ne_nil hne
  obtain ⟨-, hplus, hminus, hi, hn⟩ := hdigit c List.mem_cons_self
  have hsign : dropSign (c :: ds) = c :: ds := by
    unfold dropSign
    split
    · next heq => exact absurd (List.cons.inj heq).1 hplus
    · next heq => exact absurd (List.cons.inj heq).1 hminus
    · rfl
  -- a word begins with another letter
  have hword : ∀ word : String, (word.toList.head? = some 'i' ∨ word.toList.head? = some 'n') →
      String.ofList ((c :: ds).map Char.toLower) ≠ word := by
    rintro word hhead rfl
    rw [String.toList_ofList, List.map_cons, List.head?_cons, Option.some_inj,
      Option.some_inj] at hhead
    exact hhead.elim hi hn
  unfold float?
  rw [hsign]
  dsimp only
  rw [if_neg (not_or.2 ⟨hword "inf" (by decide), hword "infinity" (by decide)⟩),
    if_neg (hword "nan" (by decide)), hdecimal]

/-- **Digits in another base are read as an integer.** -/
theorem integer?_of_digits {base : Nat} {cs : List Char} (hne : cs ≠ [])
    (h : cs.all (isDigitOf base) = true) (hplus : cs.head? ≠ some '+') :
    integer? base cs = some (digitsValue base hexValue cs) := by
  have hread : ∀ digits, digits = cs →
      (if digits ≠ [] ∧ digits.all (isDigitOf base) = true then
          some (digitsValue base hexValue digits)
        else none) = some (digitsValue base hexValue cs) := by
    rintro digits rfl
    exact if_pos ⟨hne, h⟩
  refine hread _ ?_
  split
  · exact absurd rfl hplus
  · rfl

/-! ## Signs and suffixes -/

theorem dropSuffixN_concat (cs : List Char) (c : Char) :
    dropSuffixN (cs ++ [c]) = if c = 'n' then cs else cs ++ [c] := by
  unfold dropSuffixN
  rw [List.reverse_concat]
  split
  · next heq =>
    rw [(List.cons.inj heq).1, ← (List.cons.inj heq).2, List.reverse_reverse, if_pos rfl]
  · next hn => rw [if_neg fun hc => hn _ (by rw [hc])]

/-- What a number text comes down to, between its sign and its suffix. -/
theorem body_eq {text : String} {core : List Char} (negative big : Bool) (hne : core ≠ [])
    (hminus : core.head? ≠ some '-') (hsuffix : core.getLast? ≠ some 'n')
    (h : (text.toList.filter (· ≠ '_')).map Char.toLower
      = (if negative then ['-'] else []) ++ core ++ if big then ['n'] else []) :
    body text = core := by
  have hdrop : ∀ sign : List Char,
      dropSuffixN (sign ++ core ++ if big then ['n'] else []) = sign ++ core := by
    intro sign
    cases big with
    | true => exact (dropSuffixN_concat _ _).trans (if_pos rfl)
    | false =>
      obtain ⟨front, c, rfl⟩ := (List.eq_nil_or_concat' core).resolve_left hne
      have hc : c ≠ 'n' := fun heq => hsuffix (by rw [heq, List.getLast?_concat])
      rw [if_neg Bool.false_ne_true, List.append_nil, ← List.append_assoc, dropSuffixN_concat,
        if_neg hc]
  unfold body
  rw [h, hdrop]
  cases negative with
  | true => rfl
  | false =>
    rw [if_neg Bool.false_ne_true, List.nil_append]
    split
    · exact absurd rfl hminus
    · rfl

theorem Radix.lower_mark {radix : Radix} (m : { m : List Char // m ∈ radix.marks }) :
    (m.1.filter (· ≠ '_')).map Char.toLower = radix.smallMark := by
  have hall : radix.marks.all
      (fun m => (m.filter (· ≠ '_')).map Char.toLower = radix.smallMark) = true := by
    cases radix <;> decide
  exact of_decide_eq_true (List.all_eq_true.1 hall m.1 m.2)

namespace IntegerText

variable (n : IntegerText)

theorem lowered_eq : n.lowered = n.first.1.toLower :: n.others.map (·.2.1.toLower) := by
  rw [lowered, digits, List.map_cons, List.map_map]
  rfl

theorem lowered_ne_nil : n.lowered ≠ [] := by
  rw [lowered_eq]
  exact List.cons_ne_nil _ _

theorem exists_digit_of_mem_lowered {c : Char} (h : c ∈ n.lowered) :
    ∃ d : n.radix.Digit, d.1.toLower = c := by
  obtain ⟨d, -, hd⟩ := List.mem_map.1 h
  exact ⟨d, hd⟩

/-- Separators stand between digits only. -/
theorem filter_written : n.written.filter (· ≠ '_') = n.digits.map (·.1) := by
  have hkept : ∀ d : n.radix.Digit, d.1 ≠ '_' := fun d => (Radix.isDigit d).ne_separator
  have hothers : ∀ others : List (Nat × n.radix.Digit),
      (others.flatMap fun d => List.replicate d.1 '_' ++ [d.2.1]).filter (· ≠ '_')
        = others.map (·.2.1) := by
    intro others
    induction others with
    | nil => rfl
    | cons d others ih =>
      rw [List.flatMap_cons, List.filter_append, ih]
      simp [hkept]
  rw [written, List.filter_cons_of_pos (by simpa using hkept n.first), hothers, digits,
    List.map_cons, List.map_map]
  rfl

theorem value_eq_zero_iff : n.value = 0 ↔ ∀ d ∈ n.digits, d.1 = '0' := by
  have hbase : n.radix.base ≠ 0 := by cases n.radix <;> decide
  rw [value, ofDigits_eq_zero_iff hbase]
  simp only [List.mem_reverse, List.forall_mem_map, (Radix.isDigit _).number_eq_zero]

theorem digitsValue_lowered : digitsValue n.radix.base hexValue n.lowered = n.value := by
  rw [digitsValue_eq_ofDigits, lowered, List.map_map]
  exact congrArg (fun ds => Nat.ofDigits n.radix.base (List.reverse ds))
    (List.map_congr_left fun d _ => (Radix.isDigit d).hexValue_eq)

/-- **The mark and the digits are what a text comes down to.** -/
theorem body_text : body n.text = n.radix.smallMark ++ n.lowered := by
  have hdigit : ∀ c ∈ n.lowered, c ≠ '-' ∧ c ≠ 'n' := by
    intro c hc
    obtain ⟨d, rfl⟩ := n.exists_digit_of_mem_lowered hc
    exact ⟨(Radix.isDigit d).ne_minus, (Radix.isDigit d).ne_suffix⟩
  refine body_eq n.negative n.big ?_ ?_ ?_ ?_
  · exact List.append_ne_nil_of_right_ne_nil _ n.lowered_ne_nil
  · cases n.radix with
    | decimal => exact fun hhead => (hdigit _ (List.mem_of_head? hhead)).1 rfl
    | _ => exact fun hhead => absurd (Option.some.inj hhead) (by decide)
  · rw [List.getLast?_append_of_ne_nil _ n.lowered_ne_nil]
    exact fun hlast => (hdigit _ (List.mem_of_getLast? hlast)).2 rfl
  · rw [text, String.toList_ofList, List.filter_append, List.filter_append, List.filter_append,
      List.map_append, List.map_append, List.map_append, Radix.lower_mark, filter_written,
      List.map_map]
    cases n.negative <;> cases n.big <;> simp [lowered]

theorem word64?_lowered :
    decide (word64? n.radix.base n.lowered = some 0) = decide (n.value = 0) := by
  have hall : n.lowered.all (isDigitOf n.radix.base) = true := by
    refine List.all_eq_true.2 fun c hc => ?_
    obtain ⟨d, rfl⟩ := n.exists_digit_of_mem_lowered hc
    exact (Radix.isDigit d).isDigitOf
  have hplus : n.lowered.head? ≠ some '+' := by
    rw [lowered_eq, List.head?_cons]
    exact fun heq => (Radix.isDigit n.first).ne_plus (Option.some.inj heq)
  refine decide_eq_decide.2 ?_
  rw [word64?_eq_zero_iff, integer?_of_digits n.lowered_ne_nil hall hplus, digitsValue_lowered,
    Option.some_inj]

theorem float?_lowered (h : n.radix = .decimal) :
    (∀ c ∈ n.lowered, c ∈ Radix.decimal.digits)
      ∧ float? n.lowered = some (.decimal n.value n.lowered.length 0) := by
  have hsmall : Radix.decimal.digits.all (fun c => c.toLower ∈ Radix.decimal.digits) = true := by
    decide
  have hdigits : ∀ c ∈ n.lowered, c ∈ Radix.decimal.digits := by
    intro c hc
    obtain ⟨d, rfl⟩ := n.exists_digit_of_mem_lowered hc
    exact of_decide_eq_true (List.all_eq_true.1 hsmall d.1 (h ▸ d.2))
  have hvalue := n.digitsValue_lowered
  rw [h] at hvalue
  refine ⟨hdigits, ?_⟩
  rw [float?_of_digits n.lowered_ne_nil hdigits, ← hvalue]
  rfl

/-- **An integer counts as false exactly if it is zero.** -/
theorem isFalsy_text : isFalsy n.text = decide (n.value = 0) := by
  have hword := n.word64?_lowered
  rw [isFalsy_eq, body_text]
  cases hradix : n.radix with
  | decimal =>
    obtain ⟨hdigits, hfloat⟩ := n.float?_lowered hradix
    -- the second digit announces no other base
    have hmark : ∀ c, c ∉ Radix.decimal.digits → ∀ ds, n.lowered ≠ '0' :: c :: ds := by
      intro c hc ds heq
      exact hc (hdigits c (by rw [heq]; simp))
    rw [Radix.smallMark, List.nil_append]
    split
    · next heq => exact absurd heq (hmark 'x' (by decide) _)
    · next heq => exact absurd heq (hmark 'o' (by decide) _)
    · next heq => exact absurd heq (hmark 'b' (by decide) _)
    · rw [hfloat, Option.map_some, Option.getD_some]
      by_cases hzero : n.value = 0 <;> simp [FloatText.isFalsy, hzero]
  | _ =>
    rw [hradix] at hword
    exact hword

end IntegerText

/-- **An integer counts as false exactly if all its digits are zero**, in every
base and for every number of digits; so its truth is that of the number it
denotes, also of one that does not fit a word. -/
theorem integer_truth (n : IntegerText) :
    ((Literal.number n.text).truth = false ↔ ∀ d ∈ n.digits, d.1 = '0')
      ∧ (Literal.number n.text).truth = decide (n.value ≠ 0) := by
  have htruth : (Literal.number n.text).truth = decide (n.value ≠ 0) := by
    rw [Literal.truth, n.isFalsy_text, decide_not]
  refine ⟨?_, htruth⟩
  rw [htruth, decide_eq_false_iff_not, not_not, n.value_eq_zero_iff]

example : (Literal.number "-0X1_0000000000000000n").truth = true
    ∧ (Literal.number "-0O0_00n").truth = false := by decide

end ScriptToShell.Numeral
