import FormTree.Proofs.Binary64.Shortest
import FormTree.Proofs.Json.Parts
import FormTree.Proofs.Json.Reading

/-!
Numbers of 64 bits. Whatever numeral a number of a JSON text is read from, it is an integer that
fits, signed or unsigned, or the data of a finite float. So all numbers of a text are.
-/

namespace FormTree

/-- The number is one of 64 bits: an integer, signed or unsigned, or a finite float. -/
def Number.Proper : Number → Prop
  | .int i => Int64.minValue.toInt ≤ i ∧ i ≤ (Numeral.maxWord : Int)
  | .float x => x.Canonical

namespace Binary64

variable {x y z : Binary64}

theorem canonical_zero (negative : Bool) : (zero negative).Canonical := by
  have rounded : ofRatio negative 0 1 = some (zero negative) := rfl
  exact (nearestTo_ofRatio Nat.one_pos rounded).1

theorem canonical_mul? (h : x.mul? y = some z) : z.Canonical :=
  (nearestTo_ofRatio (Nat.mul_pos x.ratio_spec.1 y.ratio_spec.1) h).1

theorem canonical_div? (positive : 0 < y.mantissa) (h : x.div? y = some z) : z.Canonical :=
  (nearestTo_ofRatio (Nat.mul_pos x.ratio_spec.1 (ratio_pos positive)) h).1

private theorem powerOfTen_pos {k : Nat} (h : k < 309) : 0 < (powerOfTen k).mantissa := by
  revert k
  decide +kernel

theorem canonical_ofScaled {negative : Bool} {significand : Nat} {exponent : Int}
    (h : ofScaled negative significand exponent = some x) : x.Canonical := by
  have under {negative : Bool} {y : Binary64} (hy : y.Canonical) :
      { y with negative := negative }.Canonical :=
    ⟨hy.mantissa_lt, hy.min_le, hy.le_max, hy.full⟩
  unfold ofScaled at h
  dsimp only at h
  split at h
  · cases h
    exact canonical_zero negative
  · split at h
    · cases h
    · split at h
      · obtain ⟨y, hy, rfl⟩ := Option.map_eq_some_iff.1 h
        exact under (canonical_mul? hy)
      · split at h
        · obtain ⟨y, hy, rfl⟩ := Option.map_eq_some_iff.1 h
          exact under (canonical_div? (powerOfTen_pos (by omega)) hy)
        · split at h
          · obtain ⟨g, -, h⟩ := Option.bind_eq_some_iff.1 h
            obtain ⟨y, hy, rfl⟩ := Option.map_eq_some_iff.1 h
            exact under (canonical_div? (powerOfTen_pos (by omega)) hy)
          · cases h
            exact canonical_zero negative

end Binary64

theorem Numeral.proper_of_number? {n : Numeral} {m : Number} (h : n.number? = some m) :
    m.Proper := by
  rw [number?] at h
  split at h
  · next fits =>
    cases h
    simp only [Bool.and_eq_true, decide_eq_true_eq] at fits
    exact ⟨fits.1.2, fits.2⟩
  · obtain ⟨x, hx, rfl⟩ := Option.map_eq_some_iff.1 h
    exact Binary64.canonical_ofScaled hx

namespace Json

/-- All numbers in a value are of 64 bits. -/
def Proper (v : Json) : Prop := v.Everywhere fun w => ∀ m, w = .number m → m.Proper

private theorem builds_proper : Reader.Builds Proper where
  word h := by
    rcases Reader.wordValue?_cases h with rfl | ⟨b, rfl⟩ | ⟨n, m, number, rfl⟩
    · exact everywhere_null_iff.2 nofun
    · exact (everywhere_leaf_iff rfl).2 nofun
    · refine everywhere_number_iff.2 ?_
      rintro _ ⟨⟩
      exact Numeral.proper_of_number? number
  text _ := everywhere_string_iff.2 nofun
  array held := everywhere_array_iff.2 ⟨nofun, held⟩
  object _ held := everywhere_object_iff.2 ⟨nofun, held⟩

/-- All numbers that are read are of 64 bits. -/
theorem proper_of_read? {limit : Nat} {text : String} {v : Json}
    (h : read? limit text = some v) : v.Proper :=
  holds_of_read? builds_proper h

end Json

end FormTree
