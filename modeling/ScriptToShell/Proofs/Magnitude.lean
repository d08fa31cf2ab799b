import Mathlib.Algebra.Order.Field.Power
import Mathlib.Data.Rat.Cast.Order
import Mathlib.Tactic.Positivity
import ScriptToShell.Tree.Numeral

/-!
# Number texts that count as false

A number literal counts as false if the double next to it is zero. This is
decided on its text, by comparing whole numbers. Here a text is given the exact
number that it denotes, a fraction, and the decision is shown to be one about
that number: a text counts as false exactly if its number is at most half the
least positive double, or it is no number at all (`Numeral.isFalsy_iff`).

Two shortcuts of the decision do not show in it. A decimal whose exponent is far
below the number of its digits is not compared at all, and an integer of more
than 64 bits in another base is never read.
-/

namespace ScriptToShell.Numeral

/-! ## The number of a text -/

/-- The part of a number text that its size depends on: without separators, in
small letters, without the suffix of a big integer and without a minus sign. -/
def body (text : String) : List Char :=
  match dropSuffixN ((text.toList.filter (· ≠ '_')).map Char.toLower) with
  | '-' :: ds => ds
  | ds => ds

/-- **The number a floating-point text denotes**, up to the sign. -/
def FloatText.magnitude? : FloatText → Option ℚ
  | .decimal mantissa _ exponent => some (mantissa * 10 ^ exponent)
  | .infinity | .nan => none

/-- The integer a text denotes in a base, however large. -/
def integer? (base : Nat) (cs : List Char) : Option Nat :=
  let digits := match cs with
    | '+' :: ds => ds
    | ds => ds
  if digits ≠ [] ∧ digits.all (isDigitOf base) then some (digitsValue base hexValue digits)
  else none

/-- **The number a number literal denotes**, up to the sign. -/
def magnitude? (text : String) : Option ℚ :=
  match body text with
  | '0' :: 'x' :: ds => (integer? 16 ds).map (↑)
  | '0' :: 'o' :: ds => (integer? 8 ds).map (↑)
  | '0' :: 'b' :: ds => (integer? 2 ds).map (↑)
  | ds => (float? ds).bind FloatText.magnitude?

/-- **A number text whose double is zero**: its number is at most half the least
positive double, and a tie goes to zero. -/
def Vanishes (text : String) : Prop := ∃ q, magnitude? text = some q ∧ q ≤ 1 / 2 ^ 1075

/-- A text for what is not a number. -/
def IsNotANumber (text : String) : Prop := float? (body text) = some .nan

/-! ## Digits -/

theorem digitsValue_append_one (base : Nat) (value : Char → Nat) (digits : List Char) (d : Char) :
    digitsValue base value (digits ++ [d]) = base * digitsValue base value digits + value d := by
  simp [digitsValue]

/-- Digits of a base denote a number below the power for their count. -/
theorem digitsValue_lt {base : Nat} {value : Char → Nat} {digits : List Char}
    (h : ∀ d ∈ digits, value d < base) : digitsValue base value digits < base ^ digits.length := by
  induction digits using List.reverseRecOn with
  | nil => exact Nat.one_pos
  | append_singleton digits d ih =>
    rw [List.forall_mem_append, List.forall_mem_singleton] at h
    rw [digitsValue_append_one, List.length_append, List.length_singleton, pow_succ]
    calc base * digitsValue base value digits + value d
        < base * digitsValue base value digits + base := Nat.add_lt_add_left h.2 _
      _ = base * (digitsValue base value digits + 1) := by rw [Nat.mul_add, Nat.mul_one]
      _ ≤ base * base ^ digits.length := Nat.mul_le_mul_left _ (ih h.1)
      _ = base ^ digits.length * base := Nat.mul_comm _ _

theorem hexValue_lt_ten {c : Char} (h : c.isDigit = true) : hexValue c < 10 := by
  rw [hexValue, if_pos h]
  simp only [Char.isDigit, Bool.and_eq_true, decide_eq_true_eq, ge_iff_le,
    UInt32.le_iff_toNat_le] at h
  change 48 ≤ c.toNat ∧ c.toNat ≤ 57 at h
  have hzero : '0'.toNat = 48 := rfl
  omega

/-- A decimal has no more digits than it is written with. -/
theorem exists_of_decimal? {cs : List Char} {number : FloatText} (h : decimal? cs = some number) :
    ∃ mantissa width exponent, number = .decimal mantissa width exponent
      ∧ mantissa < 10 ^ width := by
  have hdigits : ∀ digits : List Char, digits.all Char.isDigit = true →
      digitsValue 10 hexValue digits < 10 ^ digits.length := fun digits hall =>
    digitsValue_lt fun d hd => hexValue_lt_ten (List.all_eq_true.1 hall d hd)
  unfold decimal? at h
  dsimp only at h
  split at h
  all_goals
    dsimp only at h
    split at h
    · cases h
    · obtain ⟨e, -, rfl⟩ := Option.map_eq_some_iff.1 h
      exact ⟨_, _, _, rfl, hdigits _ (by simp [List.all_takeWhile])⟩

theorem exists_of_float? {cs : List Char} {number : FloatText} (h : float? cs = some number) :
    number = .infinity ∨ number = .nan ∧ String.ofList ((dropSign cs).map Char.toLower) = "nan"
      ∨ ∃ mantissa width exponent, number = .decimal mantissa width exponent
        ∧ mantissa < 10 ^ width := by
  unfold float? at h
  dsimp only at h
  split at h
  · cases h
    exact .inl rfl
  · split at h
    · rename_i hnan
      cases h
      exact .inr (.inl ⟨rfl, hnan⟩)
    · exact .inr (.inr (exists_of_decimal? h))

/-! ## The comparison -/

/-- Ten is more than three doublings. -/
theorem two_pow_le_ten_pow {k l : Nat} (h : k ≤ 3 * l) : 2 ^ k ≤ 10 ^ l :=
  calc 2 ^ k ≤ 2 ^ (3 * l) := Nat.pow_le_pow_right (by decide) h
    _ = (2 ^ 3) ^ l := pow_mul 2 3 l
    _ ≤ 10 ^ l := Nat.pow_le_pow_left (by decide) l

/-- Below this exponent a decimal need not be compared. -/
theorem mul_le_of_width_lt {mantissa width n k : Nat} (h : mantissa < 10 ^ width) (hk : k ≤ 1200)
    (hwidth : width + 400 < n) : mantissa * 2 ^ k ≤ 10 ^ n :=
  calc mantissa * 2 ^ k ≤ 10 ^ width * 10 ^ (n - width) :=
        Nat.mul_le_mul h.le (two_pow_le_ten_pow (by omega))
    _ = 10 ^ n := by rw [← pow_add, Nat.add_sub_cancel' (by omega)]

/-- Fractions are compared by whole numbers. -/
theorem div_le_iff_mul_le (mantissa n k : Nat) :
    (mantissa / 10 ^ n : ℚ) ≤ 1 / 2 ^ k ↔ mantissa * 2 ^ k ≤ 10 ^ n := by
  rw [div_le_div_iff₀ (by positivity) (by positivity), one_mul]
  exact_mod_cast Iff.rfl

/-- Half the least positive double is below one. -/
theorem half_lt_one : (1 / 2 ^ 1075 : ℚ) < 1 := by
  rw [div_lt_one (by positivity)]
  exact one_lt_pow₀ (by norm_num) (by decide)

/-- **A decimal counts as false exactly if it is so small.** -/
theorem FloatText.isFalsy_decimal_iff {mantissa width : Nat} {exponent : Int}
    (h : mantissa < 10 ^ width) :
    (FloatText.decimal mantissa width exponent).isFalsy = true
      ↔ (mantissa * 10 ^ exponent : ℚ) ≤ 1 / 2 ^ 1075 := by
  by_cases hzero : mantissa = 0
  · rw [hzero, Nat.cast_zero, zero_mul]
    exact iff_of_true rfl (by positivity)
  · have hone : (1 : ℚ) ≤ mantissa := by exact_mod_cast Nat.one_le_iff_ne_zero.2 hzero
    simp only [FloatText.isFalsy, if_neg hzero]
    cases exponent with
    | ofNat k =>
      have hpower : (1 : ℚ) ≤ 10 ^ (Int.ofNat k) :=
        one_le_zpow₀ (by norm_num) (Int.natCast_nonneg k)
      refine iff_of_false Bool.false_ne_true (not_le.2 ?_)
      calc (1 / 2 ^ 1075 : ℚ) < 1 := half_lt_one
        _ ≤ mantissa * 10 ^ (Int.ofNat k) := one_le_mul_of_one_le_of_one_le hone hpower
    | negSucc n =>
      have hfar : ∀ k ≤ 1200, (width + 400 < n + 1 ∨ mantissa * Nat.pow 2 k ≤ Nat.pow 10 (n + 1))
          ↔ (mantissa / 10 ^ (n + 1) : ℚ) ≤ 1 / 2 ^ k := by
        intro k hk
        rw [div_le_iff_mul_le]
        -- the shortcut gives what the comparison would
        exact or_iff_right_of_imp (mul_le_of_width_lt h hk)
      rw [zpow_negSucc, ← div_eq_mul_inv, Bool.or_eq_true, decide_eq_true_eq, decide_eq_true_eq]
      -- the power is not to be computed
      have hk : 1075 ≤ 1200 := by decide
      generalize 1075 = k at hk ⊢
      exact hfar k hk

theorem isFalsy_eq (text : String) :
    isFalsy text = match body text with
      | '0' :: 'x' :: ds => decide (word64? 16 ds = some 0)
      | '0' :: 'o' :: ds => decide (word64? 8 ds = some 0)
      | '0' :: 'b' :: ds => decide (word64? 2 ds = some 0)
      | ds => ((float? ds).map FloatText.isFalsy).getD false := rfl

/-- A number that does not fit a word is not zero. -/
theorem word64?_eq_zero_iff (base : Nat) (cs : List Char) :
    word64? base cs = some 0 ↔ integer? base cs = some 0 := by
  have hfits : ∀ digits : List Char,
      (if digits ≠ [] ∧ digits.all (isDigitOf base) = true then
          if digitsValue base hexValue digits < Nat.pow 2 64 then
            some (digitsValue base hexValue digits)
          else none
        else none) = some 0
      ↔ (if digits ≠ [] ∧ digits.all (isDigitOf base) = true then
          some (digitsValue base hexValue digits)
        else none) = some 0 := by
    intro digits
    split
    · split
      · rfl
      · rename_i hlarge
        refine iff_of_false nofun fun hzero => hlarge ?_
        rw [Option.some.inj hzero]
        exact Nat.pow_pos (by decide)
    · rfl
  exact hfits _

/-- An integer is never small without being zero. -/
theorem integer?_small_iff (base : Nat) (cs : List Char) :
    (∃ q, (integer? base cs).map ((↑) : Nat → ℚ) = some q ∧ q ≤ 1 / 2 ^ 1075)
      ↔ integer? base cs = some 0 := by
  constructor
  · rintro ⟨q, hq, hsmall⟩
    obtain ⟨k, hk, rfl⟩ := Option.map_eq_some_iff.1 hq
    have hlt : (k : ℚ) < 1 := hsmall.trans_lt half_lt_one
    have hzero : k = 0 := Nat.lt_one_iff.1 (by exact_mod_cast hlt)
    rw [hk, hzero]
  · intro hzero
    exact ⟨0, by simp [hzero], by positivity⟩

/-- What is not a number does not begin with a digit. -/
theorem not_nan_of_zero (cs : List Char) : float? ('0' :: cs) ≠ some .nan := by
  intro h
  obtain hinfinity | ⟨-, hlower⟩ | ⟨mantissa, width, exponent, hdecimal, -⟩ := exists_of_float? h
  · cases hinfinity
  · have hhead := congrArg (fun s : String => s.toList.head?) hlower
    simp [dropSign] at hhead
  · cases hdecimal

/-- **An integer in another base** counts as false exactly if it is so small. -/
theorem word64?_small_iff (base : Nat) (c : Char) (ds : List Char) :
    decide (word64? base ds = some 0) = true
      ↔ (∃ q, (integer? base ds).map ((↑) : Nat → ℚ) = some q ∧ q ≤ 1 / 2 ^ 1075)
        ∨ float? ('0' :: c :: ds) = some .nan := by
  rw [decide_eq_true_eq, word64?_eq_zero_iff, or_iff_left (not_nan_of_zero _), integer?_small_iff]

/-- **The truth of a number literal is one about its number.** -/
theorem isFalsy_iff (text : String) : isFalsy text = true ↔ Vanishes text ∨ IsNotANumber text := by
  rw [isFalsy_eq, Vanishes, magnitude?, IsNotANumber]
  generalize body text = ds
  split
  · exact word64?_small_iff 16 'x' _
  · exact word64?_small_iff 8 'o' _
  · exact word64?_small_iff 2 'b' _
  · cases hfloat : float? ds with
    | none => simp
    | some number =>
      obtain rfl | ⟨rfl, -⟩ | ⟨mantissa, width, exponent, rfl, hlt⟩ := exists_of_float? hfloat
      · simp [FloatText.isFalsy, FloatText.magnitude?]
      · simp [FloatText.isFalsy]
      · simpa [FloatText.magnitude?] using FloatText.isFalsy_decimal_iff hlt

end ScriptToShell.Numeral
