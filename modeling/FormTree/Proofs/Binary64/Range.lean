import FormTree.Proofs.Binary64.Rounding

/-!
The range of the finite numbers. A quotient rounds to a number unless it reaches the middle
between the greatest one and the power of two that would come next, which the tie rule
sends upwards.
-/

namespace FormTree.Binary64

variable {r : ℚ} {e : Int} {m k num den : Nat}

/-- From here on a magnitude rounds to no finite number. -/
def overflow : ℚ := 2 ^ 1024 - 2 ^ 970

theorem overflow_eq : overflow = (2 ^ 54 - 1) * 2 ^ (970 : Int) := by
  have unit : (2 : ℚ) ^ (970 : Int) = 2 ^ 970 := zpow_natCast 2 970
  rw [overflow, unit, sub_mul, one_mul, ← pow_add]

theorem overflow_pos : 0 < overflow := by
  rw [overflow_eq]
  exact mul_pos (by norm_num) (zpow_pos two_pos _)

/-- Below an even number the middle is where rounding reaches it. -/
theorem RoundsTo.lt_iff (h : RoundsTo r m) (even : k % 2 = 0) : m < k ↔ r < k - 1 / 2 := by
  constructor
  · intro less
    have next : (m : ℚ) + 1 ≤ k := by exact_mod_cast less
    rcases h with near | ⟨tie, even'⟩
    · linarith [(abs_lt.1 near).2]
    · have apart : (m : ℚ) + 2 ≤ k := by exact_mod_cast (by omega : m + 2 ≤ k)
      linarith [(abs_le.1 tie.le).2]
  · intro less
    have half : |r - m| ≤ 1 / 2 := h.elim le_of_lt fun tie => tie.1.le
    have : (m : ℚ) < k := by linarith [(abs_le.1 half).1]
    exact_mod_cast this

/-- What is rounded at an exponent is a finite number below the overflow and nowhere else. -/
theorem Scales.lt_overflow_iff (scales : Scales r e) (rounds : RoundsTo (r / 2 ^ e) m)
    (negative : Bool) : r < overflow ↔ (carried negative m e).exponent ≤ maxExponent := by
  have finite : (carried negative m e).exponent ≤ maxExponent ↔
      e < maxExponent ∨ e = maxExponent ∧ m < 2 ^ 53 := by
    rw [carried]
    split <;> simp only <;> omega
  have lower (h : e < maxExponent) : (2 : ℚ) ^ e ≤ 2 ^ (970 : Int) :=
    zpow_le_zpow_right₀ one_le_two (Int.le_of_lt_add_one h)
  have higher (h : maxExponent < e) : (2 : ℚ) ^ (970 : Int) * 2 ^ (2 : Int) ≤ 2 ^ e := by
    rw [← zpow_add₀ two_ne_zero]
    exact zpow_le_zpow_right₀ one_le_two h
  have top : (2 : ℚ) ^ maxExponent = 2 ^ (970 : Int) * 2 := zpow_add_one₀ two_ne_zero 970
  have unit : (0 : ℚ) < 2 ^ (970 : Int) := zpow_pos two_pos _
  rw [finite, overflow_eq]
  generalize (2 : ℚ) ^ (970 : Int) = u at lower higher top unit
  rcases lt_trichotomy e maxExponent with below | rfl | above
  · refine iff_of_true ?_ (.inl below)
    linarith [scales.lt, lower below]
  · have half : (2 ^ 54 - 1) * u = ((2 ^ 53 : Nat) - 1 / 2 : ℚ) * 2 ^ maxExponent := by
      rw [top]
      push_cast
      ring
    rw [half, ← div_lt_iff₀ (zpow_pos two_pos _), ← rounds.lt_iff (by norm_num)]
    simp
  · have full : 2 ^ 52 * 2 ^ e ≤ r := scales.full.resolve_left fun least => by
      rw [least] at above
      exact absurd above (by decide)
    refine iff_of_false (not_lt.2 ?_) (by omega)
    linarith [higher above]

/-- A quotient rounds to a number iff it is below the overflow. -/
theorem isSome_ofRatio_iff (negative : Bool) (num : Nat) (hd : 0 < den) :
    (ofRatio negative num den).isSome = true ↔ (num : ℚ) / den < overflow := by
  rcases Nat.eq_zero_or_pos num with rfl | hn
  · refine iff_of_true rfl ?_
    rw [Nat.cast_zero, zero_div]
    exact overflow_pos
  · obtain ⟨e, m, scales, rounds⟩ := exists_rounded hn hd
    rw [ofRatio_eq negative hn hd scales rounds, scales.lt_overflow_iff rounds negative]
    split
    · next finite => exact iff_of_true rfl finite
    · next beyond => exact iff_of_false Bool.false_ne_true beyond

end FormTree.Binary64
