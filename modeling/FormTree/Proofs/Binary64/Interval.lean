import FormTree.Binary64.Shortest
import FormTree.Proofs.Binary64.Rounding

/-!
The interval of a number: what lies between the middles to its neighbours, with the ends
where the significand is even. All of it rounds to the number.
-/

namespace FormTree

namespace Decimal

/-- A decimal and a binary number become naturals under one factor. -/
private theorem common_factor (a : Nat) (k : Int) (b : Nat) (q : Int) : ∃ d : ℚ, 0 < d ∧
    (a : ℚ) * 10 ^ k * d = ((a * Nat.pow 10 k.toNat) <<< (-q).toNat : Nat) ∧
      (b : ℚ) * 2 ^ q * d = ((b * Nat.pow 10 (-k).toNat) <<< q.toNat : Nat) := by
  refine ⟨10 ^ (-k).toNat * 2 ^ (-q).toNat, by positivity, ?_, ?_⟩
  · rw [Binary64.zpow_eq_div (by norm_num) k, Nat.shiftLeft_eq, Nat.pow_eq]
    push_cast
    field_simp
  · rw [Binary64.zpow_eq_div two_ne_zero q, Nat.shiftLeft_eq, Nat.pow_eq]
    push_cast
    field_simp

theorem leBinary_iff (a : Nat) (k : Int) (b : Nat) (q : Int) :
    leBinary a k b q = true ↔ (a : ℚ) * 10 ^ k ≤ b * 2 ^ q := by
  obtain ⟨d, pos, ha, hb⟩ := common_factor a k b q
  rw [leBinary, decide_eq_true_iff, ← Nat.cast_le (α := ℚ), ← ha, ← hb,
    mul_le_mul_iff_left₀ pos]

theorem geBinary_iff (a : Nat) (k : Int) (b : Nat) (q : Int) :
    geBinary a k b q = true ↔ (b : ℚ) * 2 ^ q ≤ a * 10 ^ k := by
  obtain ⟨d, pos, ha, hb⟩ := common_factor a k b q
  rw [geBinary, decide_eq_true_iff, ← Nat.cast_le (α := ℚ), ← ha, ← hb,
    mul_le_mul_iff_left₀ pos]

end Decimal

namespace Binary64

def low (x : Binary64) : ℚ := x.interval.1 * 2 ^ (x.exponent - 2)

def high (x : Binary64) : ℚ := x.interval.2.2 * 2 ^ (x.exponent - 2)

/-- Between the ends of the interval, which belong to it when the significand is even. -/
def Within (x : Binary64) (r : ℚ) : Prop :=
  if x.mantissa % 2 = 0 then x.low ≤ r ∧ r ≤ x.high else x.low < r ∧ r < x.high

variable {x : Binary64} {r : ℚ}

theorem roundsFrom_iff (x : Binary64) (c : Nat) (k : Int) :
    x.roundsFrom c k = true ↔ x.Within (c * 10 ^ k) := by
  simp only [roundsFrom, Within, low, high]
  split
  · rw [Bool.and_eq_true, Decimal.geBinary_iff, Decimal.leBinary_iff]
  · rw [Bool.and_eq_true, Bool.not_eq_true', Bool.not_eq_true', ← Bool.not_eq_true,
      ← Bool.not_eq_true, Decimal.geBinary_iff, Decimal.leBinary_iff, not_le, not_le]

theorem Within.le (h : x.Within r) : x.low ≤ r ∧ r ≤ x.high := by
  rw [Within] at h
  split at h
  · exact h
  · exact ⟨h.1.le, h.2.le⟩

/-- The significand is the least of its length, so the numbers below are twice as close. -/
def Narrow (x : Binary64) : Prop := x.mantissa = 2 ^ 52 ∧ minExponent < x.exponent

instance : Decidable x.Narrow := inferInstanceAs (Decidable (_ ∧ _))

private theorem quarter (e : Int) : (2 : ℚ) ^ (e - 2) = 2 ^ e / 4 := by
  rw [zpow_sub₀ two_ne_zero]
  norm_num

theorem high_eq (x : Binary64) : x.high = (x.mantissa + 1 / 2) * 2 ^ x.exponent := by
  rw [high, quarter, interval]
  push_cast
  ring

theorem low_eq (hx : 0 < x.mantissa) :
    x.low = (x.mantissa - if x.Narrow then 1 / 4 else 1 / 2) * 2 ^ x.exponent := by
  have narrow : (if x.mantissa = 1 <<< 52 ∧ minExponent < x.exponent then 4 * x.mantissa - 1
      else 4 * x.mantissa - 2) = if x.Narrow then 4 * x.mantissa - 1 else 4 * x.mantissa - 2 := rfl
  rw [low, quarter, interval]
  simp only [narrow]
  split
  · rw [Nat.cast_sub (by omega)]
    push_cast
    ring
  · rw [Nat.cast_sub (by omega)]
    push_cast
    ring

section Rounds

variable (positive : 0 < x.mantissa) (h : x.Within r)
include positive h

/-- Below a number with the least significand of its length the last place is half as large, and
what lies in the interval there is rounded up to the end of the places. -/
private theorem rounds_up (narrow : x.Narrow) (below : r < x.magnitude) :
    Scales r (x.exponent - 1) ∧ RoundsTo (r / 2 ^ (x.exponent - 1)) (2 ^ 53) := by
  have half : (2 : ℚ) ^ x.exponent = 2 * 2 ^ (x.exponent - 1) := by
    rw [mul_comm, ← zpow_add_one₀ two_ne_zero, sub_add_cancel]
  have unit : (0 : ℚ) < 2 ^ (x.exponent - 1) := zpow_pos two_pos _
  have least := h.le.1
  rw [low_eq positive, if_pos narrow, half, narrow.1] at least
  rw [magnitude, half, narrow.1] at below
  push_cast at least below
  have quotient : (2 : ℚ) ^ 53 - 1 / 2 ≤ r / 2 ^ (x.exponent - 1) := by
    rw [le_div_iff₀ unit]
    linarith
  have limit : r / 2 ^ (x.exponent - 1) < 2 ^ 53 := by
    rw [div_lt_iff₀ unit]
    linarith
  refine ⟨⟨?_, by linarith, .inr (by linarith)⟩, ?_⟩
  · have := narrow.2
    omega
  · have near : |r / 2 ^ (x.exponent - 1) - (2 ^ 53 : Nat)| ≤ 1 / 2 := by
      push_cast
      rw [abs_le]
      constructor <;> linarith
    exact near.lt_or_eq.imp_right fun tie => ⟨tie, rfl⟩

/-- Elsewhere the ends of the interval are half of the last place away. -/
private theorem roundsTo_mantissa (wide : ¬(x.Narrow ∧ r < x.magnitude)) :
    RoundsTo (r / 2 ^ x.exponent) x.mantissa := by
  have unit : (0 : ℚ) < 2 ^ x.exponent := zpow_pos two_pos _
  by_cases even : x.mantissa % 2 = 0
  · have above : r / 2 ^ x.exponent ≤ x.mantissa + 1 / 2 := by
      rw [div_le_iff₀ unit, ← high_eq]
      exact h.le.2
    have below : (x.mantissa : ℚ) - 1 / 2 ≤ r / 2 ^ x.exponent := by
      rw [le_div_iff₀ unit]
      by_cases narrow : x.Narrow
      · have := not_lt.1 fun less => wide ⟨narrow, less⟩
        rw [magnitude] at this
        linarith
      · have least := h.le.1
        rw [low_eq positive, if_neg narrow] at least
        exact least
    have near : |r / 2 ^ x.exponent - x.mantissa| ≤ 1 / 2 := by
      rw [abs_le]
      constructor <;> linarith
    exact near.lt_or_eq.imp_right fun tie => ⟨tie, even⟩
  · have narrow : ¬x.Narrow := fun narrow => even (by rw [narrow.1]; rfl)
    rw [Within, if_neg even, low_eq positive, if_neg narrow, high_eq, ← lt_div_iff₀ unit,
      ← div_lt_iff₀ unit] at h
    left
    rw [abs_lt]
    constructor <;> linarith

private theorem scales_exponent (hx : x.Canonical) (wide : ¬(x.Narrow ∧ r < x.magnitude)) :
    Scales r x.exponent := by
  have unit : (0 : ℚ) < 2 ^ x.exponent := zpow_pos two_pos _
  have most : (x.mantissa : ℚ) + 1 ≤ 2 ^ 53 := by exact_mod_cast hx.mantissa_lt
  refine ⟨hx.min_le, ?_, ?_⟩
  · calc r ≤ (x.mantissa + 1 / 2) * 2 ^ x.exponent := high_eq x ▸ h.le.2
      _ < 2 ^ 53 * 2 ^ x.exponent := by gcongr; linarith
  · by_cases least : x.exponent = minExponent
    · exact .inl least
    right
    have full := hx.full.resolve_left least
    rcases full.eq_or_lt with same | more
    · have narrow : x.Narrow := ⟨same.symm, lt_of_le_of_ne hx.min_le (Ne.symm least)⟩
      have := not_lt.1 fun less => wide ⟨narrow, less⟩
      rwa [magnitude, ← same, Nat.cast_pow, Nat.cast_ofNat] at this
    · have narrow : ¬x.Narrow := fun narrow => more.ne' narrow.1
      have low := h.le.1
      rw [low_eq positive, if_neg narrow] at low
      have : (2 : ℚ) ^ 52 + 1 ≤ x.mantissa := by exact_mod_cast more
      calc (2 : ℚ) ^ 52 * 2 ^ x.exponent ≤ (x.mantissa - 1 / 2) * 2 ^ x.exponent := by
            gcongr; linarith
        _ ≤ r := low

end Rounds

/-- Everything in the interval of a number rounds to it. -/
theorem ofRatio_of_within (hx : x.Canonical) (positive : 0 < x.mantissa) {num den : Nat}
    (hd : 0 < den) (h : x.Within (num / den)) : ofRatio x.negative num den = some x := by
  have hn : 0 < num := by
    refine Nat.pos_of_ne_zero fun none => ?_
    have low := h.le.1
    have one : (1 : ℚ) ≤ x.mantissa := by exact_mod_cast positive
    have room : (if x.Narrow then 1 / 4 else 1 / 2 : ℚ) < 1 := by split <;> norm_num
    have unit : (0 : ℚ) < 2 ^ x.exponent := zpow_pos two_pos _
    rw [none, Nat.cast_zero, zero_div, low_eq positive] at low
    have := mul_pos (by linarith : (0 : ℚ) < x.mantissa - if x.Narrow then 1 / 4 else 1 / 2) unit
    linarith
  obtain ⟨negative, mantissa, exponent⟩ := x
  by_cases wide : Narrow ⟨negative, mantissa, exponent⟩ ∧
      (num : ℚ) / den < magnitude ⟨negative, mantissa, exponent⟩
  · obtain ⟨scales, rounds⟩ := rounds_up positive h wide.1 wide.2
    have same : carried negative (2 ^ 53) (exponent - 1) = ⟨negative, mantissa, exponent⟩ := by
      have least : mantissa = 2 ^ 52 := wide.1.1
      rw [carried, if_neg (lt_irrefl _), sub_add_cancel, least]
    rw [ofRatio_eq negative hn hd scales rounds, same, if_pos hx.le_max]
  · have same : carried negative mantissa exponent = ⟨negative, mantissa, exponent⟩ :=
      if_pos hx.mantissa_lt
    rw [ofRatio_eq negative hn hd (scales_exponent positive h hx wide)
      (roundsTo_mantissa positive h wide), same, if_pos hx.le_max]

end Binary64

end FormTree
