import FormTree.Proofs.Binary64.Range
import FormTree.Proofs.Binary64.Whole
import FormTree.Proofs.Numeral.Text

/-!
What a numeral denotes, as a rational. The shortcuts for exponents that cannot matter
change nothing, so the number nearest to a numeral is what its exact value rounds to.
-/

namespace FormTree

namespace Binary64

/-- A decimal as a quotient of naturals. -/
theorem decimal_quotient (digits : Nat) (exponent : Int) :
    ((digits * 10 ^ exponent.toNat : Nat) : ℚ) / (10 ^ (-exponent).toNat : Nat) =
      digits * 10 ^ exponent := by
  rw [zpow_eq_div (by norm_num), ← mul_div_assoc]
  push_cast
  rfl

private theorem two_pow_le_ten_pow {j k : Nat} (h : j ≤ 3 * k) :
    (2 : ℚ) ^ (j : Int) ≤ 10 ^ (k : Int) := by
  rw [zpow_natCast, zpow_natCast]
  calc (2 : ℚ) ^ j ≤ 2 ^ (3 * k) := pow_le_pow_right₀ one_le_two h
    _ = 8 ^ k := by rw [pow_mul]; norm_num
    _ ≤ 10 ^ k := by gcongr; norm_num

/-- Beyond the finite numbers there is nothing to round to. -/
private theorem ofRatio_large {num den : Nat} (negative : Bool) (hd : 0 < den)
    (large : (2 : ℚ) ^ (1024 : Int) ≤ num / den) : ofRatio negative num den = none := by
  have power : (2 : ℚ) ^ (1024 : Int) = 2 ^ 1024 := zpow_natCast 2 1024
  have unit : (0 : ℚ) < 2 ^ 970 := pow_pos two_pos _
  have beyond : overflow ≤ 2 ^ 1024 := sub_le_self _ unit.le
  rw [← Option.not_isSome_iff_eq_none, isSome_ofRatio_iff negative num hd, not_lt]
  rw [power] at large
  exact beyond.trans large

/-- Below half of the least number above zero everything rounds to zero. -/
private theorem ofRatio_small {num den : Nat} (negative : Bool) (hn : 0 < num) (hd : 0 < den)
    (small : (num : ℚ) / den * 2 ^ (1075 : Int) < 1) :
    ofRatio negative num den = some (zero negative) := by
  have pos : (0 : ℚ) ≤ num / den := by positivity
  have unit : (2 : ℚ) ^ (1075 : Int) = 2 * (2 ^ minExponent)⁻¹ := by
    rw [← zpow_neg, mul_comm, ← zpow_add_one₀ two_ne_zero]
    rfl
  have below : (num : ℚ) / den / 2 ^ minExponent < 1 / 2 := by
    rw [unit] at small
    rw [div_eq_mul_inv _ ((2 : ℚ) ^ minExponent)]
    linarith
  have scales : Scales ((num : ℚ) / den) minExponent := by
    refine ⟨le_rfl, ?_, .inl rfl⟩
    rw [div_lt_iff₀ (zpow_pos two_pos _)] at below
    have : (0 : ℚ) < 2 ^ minExponent := zpow_pos two_pos _
    linarith
  have rounds : RoundsTo ((num : ℚ) / den / 2 ^ minExponent) 0 := by
    left
    rw [Nat.cast_zero, sub_zero, abs_of_nonneg (by positivity)]
    exact below
  rw [ofRatio_eq negative hn hd scales rounds]
  rfl

/-- An exponent above 400 is beyond the finite numbers. -/
private theorem decimal_large {digits : Nat} {exponent : Int} (hd : 0 < digits)
    (large : 400 < exponent) : (2 : ℚ) ^ (1024 : Int) ≤ digits * 10 ^ exponent := by
  have one : (1 : ℚ) ≤ digits := by exact_mod_cast hd
  calc (2 : ℚ) ^ (1024 : Int) ≤ 10 ^ (401 : Int) :=
        two_pow_le_ten_pow (j := 1024) (k := 401) (by decide)
    _ ≤ 10 ^ exponent := zpow_le_zpow_right₀ (by norm_num) (by omega)
    _ ≤ digits * 10 ^ exponent := le_mul_of_one_le_left (zpow_pos (by norm_num) _).le one

/-- Digits that all stand behind the 400th place are below half of the least number. -/
private theorem decimal_small {digits count : Nat} {exponent : Int} (fits : digits < 10 ^ count)
    (small : exponent + count < -400) : (digits : ℚ) * 10 ^ exponent * 2 ^ (1075 : Int) < 1 := by
  have ten : (0 : ℚ) < 10 ^ exponent := zpow_pos (by norm_num) _
  have short : (digits : ℚ) < 10 ^ (count : Int) := by exact_mod_cast fits
  calc (digits : ℚ) * 10 ^ exponent * 2 ^ (1075 : Int)
      < 10 ^ (count : Int) * 10 ^ exponent * 2 ^ (1075 : Int) := by gcongr
    _ = 10 ^ (exponent + count) * 2 ^ (1075 : Int) := by
      rw [mul_comm (10 ^ (count : Int) : ℚ), ← zpow_add₀ (by norm_num)]
    _ ≤ 10 ^ (-401 : Int) * 2 ^ (1075 : Int) := by
      gcongr
      · norm_num
      · omega
    _ ≤ 10 ^ (-401 : Int) * 10 ^ (401 : Int) := by
      gcongr
      exact two_pow_le_ten_pow (j := 1075) (k := 401) (by decide)
    _ = 1 := by rw [← zpow_add₀ (by norm_num)]; rfl

theorem ofDecimal_eq (negative : Bool) {digits count : Nat} (fits : digits < 10 ^ count)
    (exponent : Int) :
    ofDecimal negative digits count exponent =
      ofRatio negative (digits * 10 ^ exponent.toNat) (10 ^ (-exponent).toNat) := by
  rcases Nat.eq_zero_or_pos digits with rfl | hd
  · rw [ofDecimal, if_pos rfl, Nat.zero_mul]
    rfl
  have num : 0 < digits * 10 ^ exponent.toNat := by positivity
  have den : 0 < 10 ^ (-exponent).toNat := by positivity
  rw [ofDecimal, if_neg hd.ne']
  split
  · next large =>
    rw [ofRatio_large negative den]
    rw [decimal_quotient]
    exact decimal_large hd large
  · split
    · next small =>
      rw [ofRatio_small negative num den]
      rw [decimal_quotient]
      exact decimal_small fits small
    · split
      · next h =>
        rw [show (-exponent).toNat = 0 by omega]
        rfl
      · next h =>
        rw [show exponent.toNat = 0 by omega, pow_zero, mul_one]
        rfl

end Binary64

namespace Numeral

variable {n : Numeral} {x : Binary64}

/-- The magnitude that the digits denote. -/
def magnitude (n : Numeral) : ℚ :=
  (Nat.ofDigitChars 10 n.whole 0 +
      Nat.ofDigitChars 10 (n.fraction.getD []) 0 / 10 ^ (n.fraction.getD []).length) *
    10 ^ n.writtenExponent

/-- What a numeral denotes. -/
def value (n : Numeral) : ℚ := Binary64.signed n.negative n.magnitude

theorem appendDigits_eq (m : Nat) (digits : List Char) :
    appendDigits m digits = Nat.ofDigitChars 10 digits m := rfl

theorem magnitude_eq (n : Numeral) : n.magnitude = n.significand * 10 ^ n.scale := by
  rw [significand, appendDigits_eq, appendDigits_eq, Nat.ofDigitChars_eq_ofDigitChars_zero, scale,
    zpow_sub₀ (by norm_num), zpow_natCast, magnitude]
  push_cast
  field_simp

theorem ofDigitChars_lt {digits : List Char} (h : digits.all Char.isDigit = true) :
    Nat.ofDigitChars 10 digits 0 < 10 ^ digits.length := by
  induction digits with
  | nil => exact Nat.one_pos
  | cons c digits ih =>
      rw [List.all_cons, Bool.and_eq_true] at h
      have tail := ih h.2
      have head : c.toNat - '0'.toNat ≤ 9 := by
        have nine : c.toNat ≤ 57 := (Char.isDigit_iff_toNat.1 h.1).2
        change c.toNat - 48 ≤ 9
        omega
      rw [Nat.ofDigitChars_cons, Nat.ofDigitChars_eq_ofDigitChars_zero, List.length_cons, pow_succ,
        Nat.mul_zero, Nat.zero_add]
      have := Nat.mul_le_mul_left (10 ^ digits.length) head
      omega

theorem WellFormed.significand_lt (h : n.WellFormed) :
    n.significand < 10 ^ (n.whole.length + (n.fraction.getD []).length) := by
  rw [significand, appendDigits_eq, appendDigits_eq, ← Nat.ofDigitChars_append,
    ← List.length_append]
  exact ofDigitChars_lt (by rw [List.all_append, h.whole, h.fraction]; rfl)

/-- The number nearest to a numeral is what its digits round to, scaled exactly. -/
theorem WellFormed.nearest?_eq (h : n.WellFormed) :
    n.nearest? = Binary64.ofRatio n.negative (n.significand * 10 ^ n.scale.toNat)
      (10 ^ (-n.scale).toNat) :=
  Binary64.ofDecimal_eq n.negative h.significand_lt n.scale

theorem WellFormed.nearestTo (h : n.WellFormed) (hx : n.nearest? = some x) :
    x.Canonical ∧ x.negative = n.negative ∧ x.NearestTo n.value := by
  rw [h.nearest?_eq] at hx
  have := Binary64.nearestTo_ofRatio (by positivity) hx
  rwa [Binary64.decimal_quotient, ← magnitude_eq] at this

theorem magnitude_nonneg (n : Numeral) : 0 ≤ n.magnitude := by
  rw [magnitude_eq]
  positivity

/-- There is a number nearest to a numeral iff the numeral is below the overflow. -/
theorem WellFormed.isSome_nearest?_iff (h : n.WellFormed) :
    n.nearest?.isSome = true ↔ |n.value| < Binary64.overflow := by
  have magnitude : |n.value| = n.magnitude := by
    rw [value, Binary64.abs_signed, abs_of_nonneg n.magnitude_nonneg]
  rw [h.nearest?_eq, Binary64.isSome_ofRatio_iff _ _ (by positivity), Binary64.decimal_quotient,
    ← magnitude_eq, magnitude]

section Whole

variable (whole : n.isWhole = true)
include whole

theorem fraction_of_isWhole : n.fraction = none ∧ n.exponent = none := by
  rw [isWhole, Bool.and_eq_true, Option.isNone_iff_eq_none, Option.isNone_iff_eq_none] at whole
  exact whole

theorem magnitude_of_isWhole : n.magnitude = (Nat.ofDigitChars 10 n.whole 0 : Nat) := by
  obtain ⟨fraction, exponent⟩ := fraction_of_isWhole whole
  simp [magnitude, writtenExponent, fraction, exponent]

theorem value_of_isWhole : n.value = n.wholeValue := by
  rw [value, magnitude_of_isWhole whole, wholeValue, Binary64.signed, appendDigits_eq]
  split <;> push_cast <;> rfl

/-- A numeral of digits alone is nearest to a whole number. -/
theorem WellFormed.isSome_toInt? (h : n.WellFormed) (hx : n.nearest? = some x) :
    x.toInt?.isSome = true := by
  rw [h.nearest?_eq] at hx
  have quotient := Binary64.decimal_quotient n.significand n.scale
  rw [← magnitude_eq, magnitude_of_isWhole whole] at quotient
  exact Binary64.isSome_toInt?_of_ofRatio (by positivity) quotient hx

end Whole

end Numeral

end FormTree
