import FormTree.Proofs.Binary64.Rounding

/-!
Whole numbers among the floats. A float is whole when the number that it denotes is, and
what a whole number rounds to is whole.
-/

namespace FormTree.Binary64

variable {x : Binary64} {n : ℤ} {k num den : Nat} {negative : Bool}

theorem ratio_spec (x : Binary64) :
    0 < x.ratio.2 ∧ (x.ratio.1 : ℚ) / x.ratio.2 = x.magnitude := by
  obtain ⟨pos, scale⟩ := scaled_spec x.mantissa Nat.one_pos (-x.exponent)
  refine ⟨pos, scale.trans ?_⟩
  rw [Nat.cast_one, div_one, zpow_neg, div_inv_eq_mul, magnitude]

theorem magnitude_eq_natCast_iff : x.magnitude = k ↔ x.ratio.1 = k * x.ratio.2 := by
  obtain ⟨pos, quotient⟩ := x.ratio_spec
  rw [← quotient, div_eq_iff (by exact_mod_cast pos.ne')]
  exact_mod_cast Iff.rfl

theorem natAbs_of_signed_eq {r : ℚ} (hr : 0 ≤ r) (h : signed negative r = n) : r = n.natAbs := by
  rw [Nat.cast_natAbs, Int.cast_abs, ← h]
  cases negative
  · exact (abs_of_nonneg hr).symm
  · rw [signed, if_pos rfl, abs_neg, abs_of_nonneg hr]

/-- A float is a whole number iff it denotes it. -/
theorem toInt?_eq_some_iff : x.toInt? = some n ↔ x.value = n := by
  obtain ⟨pos, -⟩ := x.ratio_spec
  have whole : x.ratio.1 % x.ratio.2 = 0 → x.magnitude = (x.ratio.1 / x.ratio.2 : Nat) := fun h =>
    magnitude_eq_natCast_iff.2 (Nat.div_mul_cancel (Nat.dvd_of_mod_eq_zero h)).symm
  rw [toInt?]
  constructor
  · intro h
    split at h
    · next divides =>
      rw [value, whole divides, signed, ← Option.some.inj h]
      split <;> push_cast <;> rfl
    · cases h
  · intro h
    have magnitude := natAbs_of_signed_eq x.magnitude_nonneg h
    have divides : x.ratio.1 % x.ratio.2 = 0 := by
      rw [magnitude_eq_natCast_iff.1 magnitude, Nat.mul_mod_left]
    rw [if_pos divides]
    rw [value, whole divides] at h
    refine congrArg some ((Int.cast_inj (α := ℚ)).1 ?_)
    rw [← h, signed]
    split <;> push_cast <;> rfl

/-- A whole number rounds to a whole number: below the last place of the significand it is kept,
and above it there are whole numbers only. -/
theorem isSome_toInt?_of_ofRatio (hd : 0 < den) (quotient : (num : ℚ) / den = k)
    (h : ofRatio negative num den = some x) : x.toInt?.isSome = true := by
  have natural : ∃ j : Nat, x.magnitude = j := by
    rcases Nat.eq_zero_or_pos num with rfl | hn
    · cases h
      exact ⟨0, by simp [magnitude, zero]⟩
    · obtain ⟨e, m, scales, rounds, -, rfl⟩ := exists_of_ofRatio hn hd h
      rw [magnitude_carried (scales.le_two_pow rounds)]
      rcases le_or_gt 0 e with large | small
      · obtain ⟨j, rfl⟩ := Int.eq_ofNat_of_zero_le large
        exact ⟨m * 2 ^ j, by push_cast; rfl⟩
      · obtain ⟨j, rfl⟩ : ∃ j : Nat, e = -j := ⟨(-e).toNat, by omega⟩
        have kept : RoundsTo (num / den / 2 ^ (-(j : Int))) (k * 2 ^ j) := by
          left
          rw [quotient, zpow_neg, div_inv_eq_mul, zpow_natCast]
          push_cast
          rw [sub_self, abs_zero]
          exact one_half_pos
        rw [rounds.unique kept]
        refine ⟨k, ?_⟩
        push_cast
        rw [zpow_neg, zpow_natCast, mul_inv_cancel_right₀ (by positivity)]
  obtain ⟨j, hj⟩ := natural
  refine Option.isSome_iff_exists.2 ⟨if x.negative then -(j : ℤ) else j, toInt?_eq_some_iff.2 ?_⟩
  rw [value, hj, signed]
  split <;> push_cast <;> rfl

end FormTree.Binary64
