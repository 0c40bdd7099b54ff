import FormTree.Binary64
import Mathlib.Algebra.Order.Field.Power
import Mathlib.Tactic.FieldSimp
import Mathlib.Tactic.Linarith
import Mathlib.Tactic.Positivity
import Mathlib.Tactic.Ring

/-!
What rounding to binary64 gives. A quotient is scaled to an exponent at which its
whole part is a significand, and rounded there. The number obtained is as near to the
quotient as any, so a quotient that is a number is that number.
-/

namespace FormTree.Binary64

/-- A rational under a sign. -/
def signed (negative : Bool) (r : ℚ) : ℚ := if negative then -r else r

def magnitude (x : Binary64) : ℚ := x.mantissa * 2 ^ x.exponent

/-- What the data of a number denote. -/
def value (x : Binary64) : ℚ := signed x.negative x.magnitude

/-- The data are those of a finite number: the significand has 53 bits, or the exponent is
the least one. -/
structure Canonical (x : Binary64) : Prop where
  mantissa_lt : x.mantissa < 2 ^ 53
  min_le : minExponent ≤ x.exponent
  le_max : x.exponent ≤ maxExponent
  full : x.exponent = minExponent ∨ 2 ^ 52 ≤ x.mantissa

/-- No number is nearer to the rational. -/
def NearestTo (x : Binary64) (q : ℚ) : Prop :=
  ∀ y : Binary64, y.Canonical → |x.value - q| ≤ |y.value - q|

section Scaling

variable {num den : Nat}

theorem zpow_eq_div {b : ℚ} (hb : b ≠ 0) (k : Int) :
    b ^ k = b ^ k.toNat / b ^ (-k).toNat := by
  rw [← zpow_natCast, ← zpow_natCast, ← zpow_sub₀ hb]
  congr 1
  omega

theorem scaled_spec (num : Nat) (hd : 0 < den) (e : Int) :
    0 < (scaled num den e).2 ∧
      ((scaled num den e).1 : ℚ) / (scaled num den e).2 = num / den / 2 ^ e := by
  unfold scaled
  split
  · next h =>
    obtain ⟨k, rfl⟩ := Int.eq_ofNat_of_zero_le h
    refine ⟨by simp [Nat.shiftLeft_eq, hd], ?_⟩
    simp [Nat.shiftLeft_eq, div_div]
  · next h =>
    obtain ⟨k, rfl⟩ : ∃ k : Nat, e = -k := ⟨(-e).toNat, by omega⟩
    refine ⟨hd, ?_⟩
    simp only [neg_neg, Int.toNat_natCast, Nat.shiftLeft_eq, zpow_neg, zpow_natCast]
    push_cast
    field_simp

/-- The whole number is the one nearest to the rational, of two the even one. -/
def RoundsTo (r : ℚ) (m : Nat) : Prop := |r - m| < 1 / 2 ∨ |r - m| = 1 / 2 ∧ m % 2 = 0

theorem roundsTo_roundDiv (num : Nat) (hd : 0 < den) :
    RoundsTo (num / den) (roundDiv num den) := by
  have pos : (0 : ℚ) < den := by exact_mod_cast hd
  have parts : (num : ℚ) / den = (num / den : Nat) + (num % den : Nat) / den := by
    rw [eq_comm, add_div' _ _ _ pos.ne', div_left_inj' pos.ne']
    exact_mod_cast Nat.div_add_mod' num den
  have high : ((num % den : Nat) : ℚ) / den < 1 := by
    rw [div_lt_one pos]
    exact_mod_cast Nat.mod_lt num hd
  have low : (0 : ℚ) ≤ (num % den : Nat) / den := by positivity
  rw [parts, RoundsTo, roundDiv]
  generalize num / den = q
  rcases lt_trichotomy (2 * (num % den)) den with below | middle | above
  · have : ((num % den : Nat) : ℚ) / den < 1 / 2 := by
      rw [div_lt_div_iff₀ pos two_pos]
      exact_mod_cast (by omega : num % den * 2 < 1 * den)
    left
    rw [if_pos below, add_sub_cancel_left, abs_of_nonneg low]
    exact this
  · have half : ((num % den : Nat) : ℚ) / den = 1 / 2 := by
      rw [div_eq_div_iff pos.ne' two_ne_zero]
      exact_mod_cast (by omega : num % den * 2 = 1 * den)
    right
    rw [if_neg (by omega), if_neg (by omega), half]
    rcases Nat.mod_two_eq_zero_or_one q with even | odd
    · rw [even]
      refine ⟨?_, even⟩
      rw [add_zero, add_sub_cancel_left, abs_of_pos one_half_pos]
    · rw [odd]
      refine ⟨?_, by omega⟩
      push_cast
      rw [add_sub_add_left_eq_sub]
      norm_num [abs_of_neg]
  · have : 1 / 2 < ((num % den : Nat) : ℚ) / den := by
      rw [div_lt_div_iff₀ two_pos pos]
      exact_mod_cast (by omega : 1 * den < num % den * 2)
    left
    rw [if_neg (by omega), if_pos above, abs_lt]
    push_cast
    constructor <;> linarith

/-- Of whole numbers, the one that a rational rounds to is nearest. -/
theorem RoundsTo.le_abs {r : ℚ} {m : Nat} (h : RoundsTo r m) (k : ℤ) : |m - r| ≤ |k - r| := by
  have half : |r - m| ≤ 1 / 2 := h.elim le_of_lt fun tie => tie.1.le
  by_cases same : k = m
  · rw [same]
    norm_cast
  · have apart : (1 : ℚ) ≤ |(k : ℚ) - m| := by
      exact_mod_cast Int.one_le_abs (sub_ne_zero.2 same)
    have triangle := abs_sub_le (k : ℚ) r m
    rw [abs_sub_comm]
    linarith

theorem RoundsTo.unique {r : ℚ} {m k : Nat} (h : RoundsTo r m) (h' : RoundsTo r k) : m = k := by
  by_contra apart
  have triangle := abs_sub_le (m : ℚ) r k
  rw [abs_sub_comm (m : ℚ) r] at triangle
  have one : (1 : ℚ) ≤ |(m : ℚ) - k| := by
    exact_mod_cast Int.one_le_abs (by omega : (m : ℤ) - k ≠ 0)
  rcases h with h | ⟨h, even⟩ <;> rcases h' with h' | ⟨h', even'⟩
  · linarith
  · linarith
  · linarith
  · have next : |(m : ℤ) - k| = 1 := by
      exact_mod_cast (by linarith : |(m : ℚ) - k| = 1)
    rcases (abs_eq zero_le_one).1 next with next | next <;> omega

/-- A number above zero is rounded at the exponent: its whole part is a significand of 53
bits there, or the exponent is the least one. -/
structure Scales (r : ℚ) (e : Int) : Prop where
  min_le : minExponent ≤ e
  lt : r < 2 ^ 53 * 2 ^ e
  full : e = minExponent ∨ 2 ^ 52 * 2 ^ e ≤ r

theorem Scales.le {r : ℚ} {e e' : Int} (h : Scales r e) (h' : Scales r e') : e' ≤ e := by
  by_contra! less
  rcases h'.full with least | full
  · exact absurd h.min_le (by omega)
  · have step : (2 : ℚ) ^ (e + 1) ≤ 2 ^ e' := zpow_le_zpow_right₀ one_le_two (by omega)
    rw [zpow_add_one₀ two_ne_zero] at step
    have := h.lt
    linarith

theorem Scales.unique {r : ℚ} {e e' : Int} (h : Scales r e) (h' : Scales r e') : e = e' :=
  le_antisymm (h'.le h) (h.le h')

private theorem log2_bounds {n : Nat} (h : 0 < n) :
    (2 : ℚ) ^ (n.log2 : Int) ≤ n ∧ (n : ℚ) < 2 ^ ((n.log2 : Int) + 1) := by
  constructor
  · exact_mod_cast Nat.log2_self_le h.ne'
  · exact_mod_cast Nat.lt_log2_self (n := n)

/-- A quotient lies between the powers that the logarithms of its parts give. -/
private theorem quotient_bounds (hn : 0 < num) (hd : 0 < den) :
    (2 : ℚ) ^ ((num.log2 : Int) - den.log2 - 1) < num / den ∧
      (num : ℚ) / den < 2 ^ ((num.log2 : Int) - den.log2 + 1) := by
  obtain ⟨num_ge, num_lt⟩ := log2_bounds hn
  obtain ⟨den_ge, den_lt⟩ := log2_bounds hd
  have pos : (0 : ℚ) < den := by exact_mod_cast hd
  rw [lt_div_iff₀ pos, div_lt_iff₀ pos]
  constructor
  · calc (2 : ℚ) ^ ((num.log2 : Int) - den.log2 - 1) * den
        < 2 ^ ((num.log2 : Int) - den.log2 - 1) * 2 ^ ((den.log2 : Int) + 1) := by gcongr
      _ = 2 ^ (num.log2 : Int) := by rw [← zpow_add₀ two_ne_zero]; congr 1; ring
      _ ≤ num := num_ge
  · calc (num : ℚ) < 2 ^ ((num.log2 : Int) + 1) := num_lt
      _ = 2 ^ ((num.log2 : Int) - den.log2 + 1) * 2 ^ (den.log2 : Int) := by
        rw [← zpow_add₀ two_ne_zero]; congr 1; ring
      _ ≤ 2 ^ ((num.log2 : Int) - den.log2 + 1) * den := by gcongr

private theorem two_pow_mul (k : Nat) (e : Int) : (2 : ℚ) ^ k * 2 ^ e = 2 ^ (k + e) := by
  rw [zpow_add₀ two_ne_zero, zpow_natCast]

theorem scales_exponentFor (hn : 0 < num) (hd : 0 < den) :
    Scales (num / den) (exponentFor num den) := by
  obtain ⟨low, high⟩ := quotient_bounds hn hd
  rw [exponentFor]
  generalize he : max ((num.log2 : Int) - den.log2 - 53) minExponent = e
  obtain ⟨pos, scale⟩ := scaled_spec num hd e
  have fits : (scaled num den e).1 / (scaled num den e).2 < 1 <<< 53 ↔
      (num : ℚ) / den < 2 ^ 53 * 2 ^ e := by
    rw [Nat.div_lt_iff_lt_mul pos, ← div_lt_iff₀ (by positivity), ← scale,
      div_lt_iff₀ (by exact_mod_cast pos)]
    norm_cast
  have raised : (2 : ℚ) ^ ((num.log2 : Int) - den.log2 + 1) ≤ 2 ^ (54 + e) :=
    zpow_le_zpow_right₀ one_le_two (by omega)
  split
  · next h =>
    refine ⟨by omega, fits.1 h, ?_⟩
    by_cases least : e = minExponent
    · exact .inl least
    · right
      rw [two_pow_mul, show ((52 : Nat) : Int) + e = (num.log2 : Int) - den.log2 - 1 by omega]
      exact low.le
  · next h =>
    rw [fits, not_lt] at h
    refine ⟨by omega, ?_, .inr ?_⟩
    · rw [two_pow_mul]
      exact (high.trans_le raised).trans_le (zpow_le_zpow_right₀ one_le_two (by omega))
    · rw [two_pow_mul] at h ⊢
      exact (zpow_le_zpow_right₀ one_le_two (by omega)).trans h

end Scaling

/-- A rounded significand as a number; one that has become too long is halved. -/
def carried (negative : Bool) (m : Nat) (e : Int) : Binary64 :=
  if m < 2 ^ 53 then ⟨negative, m, e⟩ else ⟨negative, 2 ^ 52, e + 1⟩

section Rounded

variable {num den : Nat} {r : ℚ} {e : Int} {m : Nat} {negative : Bool}

theorem ofRatio_eq (negative : Bool) (hn : 0 < num) (hd : 0 < den) (scales : Scales (num / den) e)
    (rounds : RoundsTo (num / den / 2 ^ e) m) :
    ofRatio negative num den =
      if (carried negative m e).exponent ≤ maxExponent then some (carried negative m e)
      else none := by
  obtain ⟨pos, scale⟩ := scaled_spec num hd e
  have exponent : exponentFor num den = e := (scales_exponentFor hn hd).unique scales
  have mantissa : roundDiv (scaled num den e).1 (scaled num den e).2 = m := by
    have := roundsTo_roundDiv (scaled num den e).1 pos
    rw [scale] at this
    exact this.unique rounds
  rw [ofRatio, if_neg hn.ne', exponent]
  simp only [mantissa]
  rfl

theorem RoundsTo.le_of_le (h : RoundsTo r m) {k : Nat} (hr : r ≤ k) : m ≤ k := by
  have half : |r - m| ≤ 1 / 2 := h.elim le_of_lt fun tie => tie.1.le
  by_contra! more
  have : (k : ℚ) + 1 ≤ m := by exact_mod_cast more
  rw [abs_le] at half
  linarith

theorem RoundsTo.le_of_ge (h : RoundsTo r m) {k : Nat} (hr : k ≤ r) : k ≤ m := by
  have half : |r - m| ≤ 1 / 2 := h.elim le_of_lt fun tie => tie.1.le
  by_contra! less
  have : (m : ℚ) + 1 ≤ k := by exact_mod_cast less
  rw [abs_le] at half
  linarith

private theorem two_zpow_pos (e : Int) : (0 : ℚ) < 2 ^ e := zpow_pos two_pos e

theorem Scales.le_two_pow (h : Scales r e) (rounds : RoundsTo (r / 2 ^ e) m) : m ≤ 2 ^ 53 := by
  refine rounds.le_of_le ?_
  rw [div_le_iff₀ (two_zpow_pos e)]
  exact_mod_cast h.lt.le

theorem Scales.full_of_rounds (h : Scales r e) (rounds : RoundsTo (r / 2 ^ e) m) :
    e = minExponent ∨ 2 ^ 52 ≤ m := by
  refine h.full.imp_right fun full => rounds.le_of_ge ?_
  rw [le_div_iff₀ (two_zpow_pos e)]
  exact_mod_cast full

theorem magnitude_carried (h : m ≤ 2 ^ 53) : (carried negative m e).magnitude = m * 2 ^ e := by
  rw [carried]
  split
  · rfl
  · next large =>
    obtain rfl : m = 2 ^ 53 := by omega
    simp only [magnitude, zpow_add_one₀ (two_ne_zero (α := ℚ))]
    push_cast
    ring

theorem Scales.canonical (h : Scales r e) (rounds : RoundsTo (r / 2 ^ e) m)
    (max : (carried negative m e).exponent ≤ maxExponent) : (carried negative m e).Canonical := by
  have full := h.full_of_rounds rounds
  have least := h.min_le
  rw [carried] at max ⊢
  split
  · next small =>
    rw [if_pos small] at max
    exact ⟨small, least, max, full⟩
  · next large =>
    rw [if_neg large] at max
    exact ⟨by simp, by simp only; omega, max, .inr le_rfl⟩

/-- Nothing that has a significand of 53 bits is nearer than what is rounded at the exponent:
a greater exponent only leads to some of the same places, a smaller one stays below them. -/
theorem Scales.le_abs (h : Scales r e) (rounds : RoundsTo (r / 2 ^ e) m) {k : Nat} {f : Int}
    (hk : k < 2 ^ 53) (hf : minExponent ≤ f) : |m * 2 ^ e - r| ≤ |k * 2 ^ f - r| := by
  have unit := two_zpow_pos e
  have among (i : ℤ) : |m * 2 ^ e - r| ≤ |i * 2 ^ e - r| := by
    have near := mul_le_mul_of_nonneg_right (rounds.le_abs i) unit.le
    rwa [← abs_of_pos unit, ← abs_mul, ← abs_mul, abs_of_pos unit, sub_mul, sub_mul,
      div_mul_cancel₀ _ unit.ne'] at near
  rcases le_or_gt e f with above | below
  · obtain ⟨j, rfl⟩ : ∃ j : Nat, f = e + j := ⟨(f - e).toNat, by omega⟩
    have near := among (k * 2 ^ j)
    rw [zpow_add₀ two_ne_zero, zpow_natCast, mul_comm (2 ^ e : ℚ), ← mul_assoc]
    exact_mod_cast near
  · have full : 2 ^ 52 * 2 ^ e ≤ r := h.full.resolve_left (by omega)
    have lower : (k : ℚ) * 2 ^ f ≤ 2 ^ 52 * 2 ^ e := by
      have step : (2 : ℚ) ^ (f + 1) ≤ 2 ^ e := zpow_le_zpow_right₀ one_le_two (by omega)
      have small : (k : ℚ) ≤ 2 ^ 53 := by exact_mod_cast hk.le
      rw [zpow_add_one₀ two_ne_zero] at step
      calc (k : ℚ) * 2 ^ f ≤ 2 ^ 53 * 2 ^ f := by gcongr
        _ = 2 ^ 52 * (2 ^ f * 2) := by ring
        _ ≤ 2 ^ 52 * 2 ^ e := by gcongr
    have near := among (2 ^ 52)
    simp only [Int.cast_pow, Int.cast_ofNat] at near
    rw [abs_of_nonpos (sub_nonpos.2 full)] at near
    rw [abs_of_nonpos (sub_nonpos.2 (lower.trans full))]
    linarith

theorem abs_signed (negative : Bool) (r : ℚ) : |signed negative r| = |r| := by
  cases negative
  · rfl
  · exact abs_neg r

theorem abs_signed_sub (negative : Bool) (r q : ℚ) :
    |signed negative r - signed negative q| = |r - q| := by
  cases negative
  · rfl
  · rw [signed, signed, if_pos rfl, if_pos rfl, neg_sub_neg, abs_sub_comm]

theorem magnitude_nonneg (x : Binary64) : 0 ≤ x.magnitude :=
  mul_nonneg (Nat.cast_nonneg _) (two_zpow_pos _).le

/-- A magnitude under the same sign is no farther away than under the other one. -/
private theorem abs_sub_le_signed (x : Binary64) (negative : Bool) (hr : 0 ≤ r) :
    |x.magnitude - r| ≤ |x.value - signed negative r| := by
  have positive := x.magnitude_nonneg
  by_cases same : x.negative = negative
  · rw [value, same, abs_signed_sub]
  · have apart : |x.value - signed negative r| = x.magnitude + r := by
      rw [value]
      cases hx : x.negative <;> cases hn : negative
      · exact absurd (hx.trans hn.symm) same
      · simp only [signed, Bool.false_eq_true, if_false, if_true, sub_neg_eq_add]
        exact abs_of_nonneg (by linarith)
      · simp only [signed, Bool.false_eq_true, if_false, if_true]
        rw [abs_of_nonpos (by linarith)]
        ring
      · exact absurd (hx.trans hn.symm) same
    rw [apart, abs_le]
    constructor <;> linarith

/-- A quotient above zero is rounded at one exponent. -/
theorem exists_rounded (hn : 0 < num) (hd : 0 < den) :
    ∃ e m, Scales (num / den) e ∧ RoundsTo (num / den / 2 ^ e) m := by
  obtain ⟨pos, scale⟩ := scaled_spec num hd (exponentFor num den)
  have rounds := roundsTo_roundDiv (scaled num den (exponentFor num den)).1 pos
  rw [scale] at rounds
  exact ⟨_, _, scales_exponentFor hn hd, rounds⟩

theorem exists_of_ofRatio {x : Binary64} (hn : 0 < num) (hd : 0 < den)
    (h : ofRatio negative num den = some x) :
    ∃ e m, Scales (num / den) e ∧ RoundsTo (num / den / 2 ^ e) m ∧
      (carried negative m e).exponent ≤ maxExponent ∧ x = carried negative m e := by
  obtain ⟨e, m, scales, rounds⟩ := exists_rounded hn hd
  rw [ofRatio_eq negative hn hd scales rounds] at h
  split at h
  · next max => exact ⟨e, m, scales, rounds, max, (Option.some.inj h).symm⟩
  · cases h

theorem negative_carried (m : Nat) (e : Int) : (carried negative m e).negative = negative := by
  rw [carried]
  split <;> rfl

/-- Rounding gives the data of a finite number, with the sign asked for, and no number is nearer. -/
theorem nearestTo_ofRatio {x : Binary64} (hd : 0 < den) (h : ofRatio negative num den = some x) :
    x.Canonical ∧ x.negative = negative ∧ x.NearestTo (signed negative (num / den)) := by
  rcases Nat.eq_zero_or_pos num with rfl | hn
  · cases h
    have least : minExponent ≤ maxExponent := by decide
    have none : (zero negative).value = signed negative 0 := by simp [value, magnitude, zero]
    refine ⟨⟨by simp [zero], le_rfl, least, .inl rfl⟩, rfl, fun y _ => ?_⟩
    rw [Nat.cast_zero, zero_div, none, sub_self, abs_zero]
    exact abs_nonneg _
  · obtain ⟨e, m, scales, rounds, max, rfl⟩ := exists_of_ofRatio hn hd h
    refine ⟨scales.canonical rounds max, negative_carried m e, fun y hy => ?_⟩
    rw [value, negative_carried, abs_signed_sub, magnitude_carried (scales.le_two_pow rounds)]
    exact (scales.le_abs rounds hy.mantissa_lt hy.min_le).trans
      (abs_sub_le_signed y negative (by positivity))

/-- A rational that is a number is the number that it rounds to. -/
theorem NearestTo.value_eq_iff {x : Binary64} {q : ℚ} (near : x.NearestTo q)
    (canonical : x.Canonical) : x.value = q ↔ ∃ y : Binary64, y.Canonical ∧ y.value = q := by
  constructor
  · exact fun h => ⟨x, canonical, h⟩
  · rintro ⟨y, hy, rfl⟩
    have := near y hy
    rw [sub_self, abs_zero] at this
    exact sub_eq_zero.1 (abs_nonpos_iff.1 this)

end Rounded

end FormTree.Binary64
