import FormTree.Proofs.Binary64.Interval
import FormTree.Proofs.Binary64.Whole

/-!
The shortest decimal lies in the interval of its number. The multiples of a power of ten
next to a number are tried at finer and finer powers; with seventeen digits they are closer
together than the ends of the interval, so that one of them is found.
-/

namespace FormTree

namespace Decimal

def value (d : Decimal) : ℚ := d.digits * 10 ^ d.exponent

/-- The zeros at the end of a text of digits are a power of ten in the number. -/
private theorem ofDigitChars_trailing (digits : List Char) :
    ∃ front, Nat.ofDigitChars 10 digits 0 =
      10 ^ (digits.reverse.takeWhile (· == '0')).length * front := by
  have parts := List.takeWhile_append_dropWhile (p := (· == '0')) (l := digits.reverse)
  have zeros : digits.reverse.takeWhile (· == '0') =
      List.replicate (digits.reverse.takeWhile (· == '0')).length '0' :=
    List.eq_replicate_length.2 fun c hc => beq_iff_eq.1 (List.all_eq_true.1 List.all_takeWhile c hc)
  refine ⟨Nat.ofDigitChars 10 (digits.reverse.dropWhile (· == '0')).reverse 0, ?_⟩
  rw [← Nat.ofDigitChars_replicate_zero, ← Nat.ofDigitChars_append,
    ← List.reverse_replicate, ← List.reverse_append, ← zeros, parts, List.reverse_reverse]

@[simp] theorem value_normalize (d : Decimal) : d.normalize.value = d.value := by
  obtain ⟨digits, exponent⟩ := d
  obtain ⟨front, trailing⟩ := ofDigitChars_trailing (digitChars digits)
  rw [digitChars, Nat.ofDigitChars_ten_toDigits] at trailing
  simp only [normalize, value, digitChars]
  generalize ((Nat.toDigits 10 digits).reverse.takeWhile (· == '0')).length = zeros at trailing ⊢
  split
  · next none => simp [none]
  · rw [Nat.pow_eq, trailing, Nat.mul_div_cancel_left _ (by positivity),
      zpow_add₀ (by norm_num), zpow_natCast]
    push_cast
    ring

end Decimal

namespace Binary64

variable {x : Binary64} {k : Int}

theorem magnitude_pos (positive : 0 < x.mantissa) : 0 < x.magnitude :=
  mul_pos (by exact_mod_cast positive) (zpow_pos two_pos _)

theorem ratio_pos (positive : 0 < x.mantissa) : 0 < x.ratio.1 := by
  refine Nat.pos_of_ne_zero fun none => ?_
  have := magnitude_pos positive
  rw [← x.ratio_spec.2, none, Nat.cast_zero, zero_div] at this
  exact lt_irrefl _ this

private theorem lt_pow_length (n : Nat) : n < 10 ^ (Decimal.digitChars n).length :=
  (Nat.length_toDigits_le_iff (by decide) Nat.length_toDigits_pos).1 le_rfl

private theorem pow_length_le {n : Nat} (h : 0 < n) :
    10 ^ ((Decimal.digitChars n).length - 1) ≤ n := by
  rcases Nat.eq_zero_or_pos ((Decimal.digitChars n).length - 1) with one | more
  · rw [one]
    exact h
  · by_contra! less
    have shorter := (Nat.length_toDigits_le_iff (by decide) more).2 less
    rw [Decimal.digitChars] at more shorter
    omega

/-- A number of so many digits is at least the power of ten with the first of them. -/
theorem le_magnitude (positive : 0 < x.mantissa) :
    (10 : ℚ) ^ (x.decimalLength - 1) ≤ x.magnitude := by
  obtain ⟨den_pos, quotient⟩ := x.ratio_spec
  have num_pos := ratio_pos positive
  rw [← quotient, decimalLength]
  dsimp only
  generalize x.ratio.1 = num at num_pos ⊢
  generalize x.ratio.2 = den at den_pos ⊢
  have den_cast : (0 : ℚ) < den := by exact_mod_cast den_pos
  have num_cast : (0 : ℚ) < num := by exact_mod_cast num_pos
  split
  · next whole =>
    have least := pow_length_le (Nat.div_pos whole den_pos)
    have length : 0 < (Decimal.digitChars (num / den)).length := Nat.length_toDigits_pos
    rw [← Nat.cast_pred length, zpow_natCast, le_div_iff₀ den_cast]
    exact_mod_cast (Nat.le_div_iff_mul_le den_pos).1 least
  · next fraction =>
    have most := lt_pow_length ((den + num - 1) / num - 1)
    generalize (Decimal.digitChars ((den + num - 1) / num - 1)).length = length at most ⊢
    have inverse : den ≤ num * 10 ^ length := by
      have ceiling : (den + num - 1) / num < 10 ^ length + 1 := by omega
      rw [Nat.div_lt_iff_lt_mul num_pos, Nat.add_mul, Nat.one_mul] at ceiling
      rw [Nat.mul_comm]
      omega
    rw [sub_sub_cancel_left, zpow_neg, zpow_natCast, inv_le_comm₀ (by positivity) (by positivity),
      inv_div, div_le_iff₀ num_cast, mul_comm]
    exact_mod_cast inverse

theorem low_lt_magnitude (positive : 0 < x.mantissa) : x.low < x.magnitude := by
  rw [low_eq positive, magnitude]
  gcongr
  split <;> linarith

theorem magnitude_lt_high (x : Binary64) : x.magnitude < x.high := by
  rw [high_eq, magnitude]
  gcongr
  linarith

theorem within_of_lt {r : ℚ} (low : x.low < r) (high : r < x.high) : x.Within r := by
  rw [Within]
  split
  · exact ⟨low.le, high.le⟩
  · exact ⟨low, high⟩

/-- The multiple of `10^k` just below the magnitude. -/
def below (x : Binary64) (k : Int) : Nat :=
  x.ratio.1 * 10 ^ (-k).toNat / (x.ratio.2 * 10 ^ k.toNat)

theorem below_spec (x : Binary64) (k : Int) :
    x.below k * 10 ^ k ≤ x.magnitude ∧ x.magnitude < (x.below k + 1) * 10 ^ k := by
  obtain ⟨den_pos, quotient⟩ := x.ratio_spec
  have unit : (0 : ℚ) < 10 ^ k := zpow_pos (by norm_num) _
  have den_cast : (0 : ℚ) < x.ratio.2 := by exact_mod_cast den_pos
  have scaled : ((x.ratio.1 * 10 ^ (-k).toNat : Nat) : ℚ) / (x.ratio.2 * 10 ^ k.toNat : Nat) =
      x.magnitude / 10 ^ k := by
    rw [← quotient, zpow_eq_div (by norm_num)]
    push_cast
    field_simp
  have scale_pos : 0 < x.ratio.2 * 10 ^ k.toNat := by positivity
  rw [← le_div_iff₀ unit, ← div_lt_iff₀ unit, ← scaled, below]
  rw [le_div_iff₀ (by exact_mod_cast scale_pos), div_lt_iff₀ (by exact_mod_cast scale_pos)]
  constructor
  · exact_mod_cast Nat.div_mul_le_self _ _
  · exact_mod_cast Nat.lt_mul_of_div_lt (Nat.lt_succ_self _) scale_pos

theorem roundDiv_eq_or (num den : Nat) :
    roundDiv num den = num / den ∨ roundDiv num den = num / den + 1 := by
  unfold roundDiv
  simp only
  split
  · exact .inl rfl
  · split
    · exact .inr rfl
    · omega

theorem neighbour?_eq (x : Binary64) (k : Int) :
    x.neighbour? k = match x.roundsFrom (x.below k) k, x.roundsFrom (x.below k + 1) k with
      | true, true => some (roundDiv (x.ratio.1 * 10 ^ (-k).toNat) (x.ratio.2 * 10 ^ k.toNat))
      | true, false => some (x.below k)
      | false, true => some (x.below k + 1)
      | false, false => none := rfl

theorem within_of_neighbour? {c : Nat} (h : x.neighbour? k = some c) : x.Within (c * 10 ^ k) := by
  rw [← roundsFrom_iff]
  rw [neighbour?_eq] at h
  split at h
  · next lower upper =>
    cases h
    rcases roundDiv_eq_or (x.ratio.1 * 10 ^ (-k).toNat) (x.ratio.2 * 10 ^ k.toNat) with same | next
    · rw [same]
      exact lower
    · rw [next]
      exact upper
  · next lower _ => cases h; exact lower
  · next _ upper => cases h; exact upper
  · cases h

/-- Where the multiples are closer together than the ends of the interval, one of the two next
to the number is inside. -/
theorem isSome_neighbour? (positive : 0 < x.mantissa) (fine : (10 : ℚ) ^ k < x.high - x.low) :
    (x.neighbour? k).isSome = true := by
  obtain ⟨lower, upper⟩ := x.below_spec k
  have least := low_lt_magnitude positive
  have most := x.magnitude_lt_high
  have either : x.roundsFrom (x.below k) k = true ∨ x.roundsFrom (x.below k + 1) k = true := by
    rw [roundsFrom_iff, roundsFrom_iff]
    push_cast
    rcases lt_or_ge x.low (x.below k * 10 ^ k) with inside | outside
    · exact .inl (within_of_lt inside (lower.trans_lt most))
    · refine .inr (within_of_lt (least.trans upper) ?_)
      rw [add_mul, one_mul]
      linarith
  rw [neighbour?_eq]
  rcases either with h | h <;> rw [h] <;> split <;> simp_all

/-- With seventeen digits the multiples are close enough. -/
theorem spacing_lt (positive : 0 < x.mantissa) (short : x.mantissa < 2 ^ 53) :
    (10 : ℚ) ^ (x.decimalLength - 17) < x.high - x.low := by
  have unit : (0 : ℚ) < 2 ^ x.exponent := zpow_pos two_pos _
  have size := le_magnitude positive
  rw [show x.decimalLength - 1 = x.decimalLength - 17 + (16 : Nat) by omega,
    zpow_add₀ (by norm_num), zpow_natCast, magnitude] at size
  have width : x.high - x.low = (1 / 2 + if x.Narrow then 1 / 4 else 1 / 2) * 2 ^ x.exponent := by
    rw [high_eq, low_eq positive]
    ring
  rw [width]
  split
  · next narrow =>
    rw [narrow.1] at size
    push_cast at size
    linarith
  · have most : (x.mantissa : ℚ) * 2 ^ x.exponent < 2 ^ 53 * 2 ^ x.exponent := by
      gcongr
      exact_mod_cast short
    linarith

theorem within_shortest (hx : x.Canonical) (positive : 0 < x.mantissa) :
    x.Within x.shortest.value := by
  have zero : x.isZero = false := beq_false_of_ne positive.ne'
  rw [shortest, zero, if_neg Bool.false_ne_true]
  simp only
  cases found : (List.range 17).findSome? fun (i : Nat) =>
      (x.neighbour? (x.decimalLength - ((i : Int) + 1))).map fun c =>
        Decimal.normalize ⟨c, x.decimalLength - ((i : Int) + 1)⟩ with
  | none =>
      have last : x.neighbour? (x.decimalLength - 17) = none :=
        Option.map_eq_none_iff.1 (List.findSome?_eq_none_iff.1 found 16 (by decide))
      have some := isSome_neighbour? positive (spacing_lt positive hx.mantissa_lt)
      rw [last] at some
      cases some
  | some d =>
      obtain ⟨i, -, candidate⟩ := List.exists_of_findSome?_eq_some found
      obtain ⟨c, next, rfl⟩ := Option.map_eq_some_iff.1 candidate
      rw [Option.getD_some, Decimal.value_normalize]
      exact within_of_neighbour? next

end Binary64

end FormTree
