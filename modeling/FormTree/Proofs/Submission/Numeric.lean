import FormTree.Proofs.Numeral.Grammar
import FormTree.Proofs.Submission.Recast

/-!
The texts that are cast to numbers. They are the numerals between white space whose value
does not overflow, and an integer that fits 64 bits is cast to itself.
-/

namespace FormTree.Submission

open Numeral

variable {s : Schema} {types : TypeSet} {text : String} {n : Numeral}

/-- A text is cast to a number iff the first of the casts reads it as one. -/
theorem cast_text_eq_number_iff (numeric : s.types.isNumeric = true) {m : Number} :
    cast s (.string text) = .number m ↔ numberOf? s.types (.string text) = some m := by
  rw [cast_leaf s rfl]
  constructor
  · intro h
    have first := coerced s.types (.string text)
    rw [h] at first
    cases first with
    | number accepts =>
        obtain ⟨-, m, read, ⟨⟩⟩ := castNumber?_eq_some_iff.1 accepts
        exact read
  · exact fun read =>
      (Coerced.number (castNumber?_eq_some_iff.2 ⟨numeric, m, read, rfl⟩)).castScalar_eq

theorem numberOf?_spelled (h : n.Spells (Text.trimChars text.toList)) :
    numberOf? types (.string text) =
      if n.isWhole = true ∧ Int64.minValue.toInt ≤ n.wholeValue ∧
          n.wholeValue ≤ (maxWord : Int) then some (.int n.wholeValue)
      else n.nearest?.map (settled types) := by
  rw [numberOf?, parseNumber?_eq, h.read?, Option.bind_some]

/-- The integers that are kept as they are written. -/
theorem fits_iff {i : Int} : Int64.minValue.toInt ≤ i ∧ i ≤ (maxWord : Int) ↔
    -2 ^ 63 ≤ i ∧ i ≤ 2 ^ 64 - 1 := by
  have least : Int64.minValue.toInt = -2 ^ 63 := by decide
  have greatest : (maxWord : Int) = 2 ^ 64 - 1 := by decide
  rw [least, greatest]

/-- An integer that fits 64 bits is far from the overflow. -/
theorem abs_lt_overflow {i : Int} (low : -2 ^ 63 ≤ i) (high : i ≤ 2 ^ 64 - 1) :
    |(i : ℚ)| < Binary64.overflow := by
  have small : |i| ≤ 2 ^ 64 := abs_le.2 ⟨by omega, by omega⟩
  have fits : |(i : ℚ)| ≤ 2 ^ 64 := by exact_mod_cast small
  refine fits.trans_lt ?_
  rw [Binary64.overflow_eq]
  have unit : (2 : ℚ) ^ (11 : Int) ≤ 2 ^ (970 : Int) :=
    zpow_le_zpow_right₀ one_le_two (by norm_num)
  have word : (2 : ℚ) ^ 64 < (2 ^ 54 - 1) * 2 ^ (11 : Int) := by norm_num
  exact word.trans_le (mul_le_mul_of_nonneg_left unit (by norm_num))

/-- What is spelled is read as a number iff its value does not overflow. -/
theorem isSome_numberOf?_iff (h : n.Spells (Text.trimChars text.toList)) :
    (∃ m, numberOf? types (.string text) = some m) ↔ |n.value| < Binary64.overflow := by
  rw [numberOf?_spelled h]
  split
  · next fits =>
    refine iff_of_true ⟨_, rfl⟩ ?_
    rw [value_of_isWhole fits.1]
    obtain ⟨low, high⟩ := fits_iff.1 fits.2
    exact abs_lt_overflow low high
  · rw [← h.wellFormed.isSome_nearest?_iff, ← Option.isSome_iff_exists, Option.isSome_map]

/-- Where numbers are cast, a text becomes one iff it is a numeral between white space and its
value rounds to a finite number. An integer that fits 64 bits becomes exactly that integer. -/
theorem cast_text_number (numeric : s.types.isNumeric = true) (text : String) :
    ((∃ m, cast s (.string text) = .number m) ↔
      Text.trimChars text.toList ∈ grammar.matches' ∧
        ∃ q, Denotes (Text.trimChars text.toList) q ∧ |q| < 2 ^ 1024 - 2 ^ 970) ∧
    ∀ i : Int, Text.trimChars text.toList ∈ integerPattern.matches' →
      Denotes (Text.trimChars text.toList) i → -2 ^ 63 ≤ i → i ≤ 2 ^ 64 - 1 →
        cast s (.string text) = .number (.int i) := by
  simp only [cast_text_eq_number_iff numeric]
  constructor
  · rw [mem_grammar_iff]
    constructor
    · intro number
      obtain ⟨m, read⟩ := number
      have parsed := read
      rw [numberOf?, parseNumber?_eq] at parsed
      obtain ⟨n, spelled, -⟩ := Option.bind_eq_some_iff.1 parsed
      rw [read?_eq_some_iff] at spelled
      exact ⟨⟨n, spelled⟩, n.value, ⟨n, spelled, rfl⟩, (isSome_numberOf?_iff spelled).1 ⟨m, read⟩⟩
    · rintro ⟨-, _, ⟨n, spelled, rfl⟩, bound⟩
      exact (isSome_numberOf?_iff spelled).2 bound
  · intro i whole denotes low high
    obtain ⟨n, spelled, digits⟩ := mem_integerPattern_iff.1 whole
    rw [spelled.denotes_iff, value_of_isWhole digits, Int.cast_inj] at denotes
    rw [numberOf?_spelled spelled, denotes, if_pos ⟨digits, fits_iff.2 ⟨low, high⟩⟩]

private def countSchema : Schema := ⟨[.integer, .boolean, .string], none, none, none, none, .scalar⟩

private def wordText : String := "\t+018446744073709551615 "

private def wordNumeral : Numeral := ⟨some '+', "018446744073709551615".toList, none, none⟩

/-- The greatest of the unsigned integers, with a sign and a leading zero. -/
theorem cast_text_greatest_word : countSchema.types.isNumeric = true ∧
    cast countSchema (.string wordText) = .number (.int 18446744073709551615) := by
  have spelled : wordNumeral.Spells (Text.trimChars wordText.toList) :=
    read?_eq_some_iff.1 (by decide +kernel)
  have whole : wordNumeral.isWhole = true := rfl
  have value : wordNumeral.wholeValue = 18446744073709551615 := by decide +kernel
  refine ⟨rfl, (cast_text_number rfl wordText).2 18446744073709551615
    (mem_integerPattern_iff.2 ⟨wordNumeral, spelled, whole⟩) ?_ (by decide) (by decide)⟩
  rw [spelled.denotes_iff, value_of_isWhole whole, value]

end FormTree.Submission
