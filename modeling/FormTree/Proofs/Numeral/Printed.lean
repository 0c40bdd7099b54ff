import FormTree.Json.Printer
import FormTree.Proofs.Binary64.Shortest
import FormTree.Proofs.Numeral.Value
import FormTree.Proofs.Text.Trim

/-!
The texts of numbers are texts of numerals. An integer is read back from its text as digits
alone, and a float from its as the number nearest to its shortest decimal, which is the float.
-/

namespace FormTree

namespace Numeral

variable {n : Numeral}

theorem significand_eq (n : Numeral) :
    n.significand = Nat.ofDigitChars 10 (n.whole ++ n.fraction.getD []) 0 := by
  rw [significand, appendDigits_eq, appendDigits_eq, Nat.ofDigitChars_append]

private theorem isBlank_eq_false {c : Char}
    (h : c.isDigit = true ∨ c = '+' ∨ c = '-' ∨ c = '.' ∨ c = 'e') : Text.isBlank c = false := by
  rcases h with digit | rfl | rfl | rfl | rfl
  · obtain ⟨zero, nine⟩ := Char.isDigit_iff_toNat.1 digit
    change 48 ≤ c.toNat at zero
    change c.toNat ≤ 57 at nine
    simp only [Text.isBlank, Text.blankRanges, List.any_eq_false, Bool.and_eq_true,
      decide_eq_true_eq, List.mem_cons, List.not_mem_nil, or_false, forall_eq_or_imp, forall_eq]
    omega
  all_goals rfl

theorem WellFormed.isBlank_eq_false (h : n.WellFormed) : ∀ c ∈ n.text, Text.isBlank c = false := by
  intro c hc
  refine Numeral.isBlank_eq_false ?_
  have digits {cs : List Char} (all : cs.all Char.isDigit = true) (hc : c ∈ cs) :
      c.isDigit = true :=
    List.all_eq_true.1 all c hc
  simp only [text, List.mem_append, Option.mem_toList] at hc
  rcases hc with sign | whole | fraction | exponent
  · have := h.sign c sign
    tauto
  · exact .inl (digits h.whole whole)
  · cases hf : n.fraction with
    | none => simp [hf, fractionText] at fraction
    | some cs =>
        have all := h.fraction
        rw [hf] at all
        simp only [hf, fractionText, List.mem_cons] at fraction
        exact fraction.elim (fun point => by tauto) fun mem => .inl (digits all mem)
  · cases he : n.exponent with
    | none => simp [he, exponentText] at exponent
    | some e =>
        obtain ⟨sign, cs⟩ := e
        obtain ⟨signs, -, all⟩ := h.exponent _ he
        simp only [he, exponentText, List.mem_cons, List.mem_append, Option.mem_toList] at exponent
        rcases exponent with e | mem | mem
        · tauto
        · have := signs c mem
          tauto
        · exact .inl (digits all mem)

theorem WellFormed.trimChars_text (h : n.WellFormed) : Text.trimChars n.text = n.text :=
  Text.trimChars_eq_self h.isBlank_eq_false

end Numeral

namespace Decimal

theorem all_digitChars (n : Nat) : (digitChars n).all Char.isDigit = true :=
  List.all_eq_true.2 fun _ hc => Nat.isDigit_of_mem_toDigits (by decide) (by decide) hc

theorem digitChars_ne_nil (n : Nat) : digitChars n ≠ [] := Nat.toDigits_ne_nil

theorem ofDigitChars_digitChars (n : Nat) : Nat.ofDigitChars 10 (digitChars n) 0 = n :=
  Nat.ofDigitChars_ten_toDigits

/-- The parts of the text without an exponent, which ends in a fraction. -/
def positionalNumeral (sign : Option Char) (d : Decimal) : Numeral :=
  let digits := digitChars d.digits
  let places := (-d.exponent).toNat
  if 0 ≤ d.exponent then
    ⟨sign, digits ++ List.replicate d.exponent.toNat '0', some ['0'], none⟩
  else if places < digits.length then
    ⟨sign, digits.take (digits.length - places), some (digits.drop (digits.length - places)), none⟩
  else ⟨sign, ['0'], some (List.replicate (places - digits.length) '0' ++ digits), none⟩

/-- The exponent where the point follows the first digit. -/
def power (d : Decimal) : Int := d.exponent + (((digitChars d.digits).length : Int) - 1)

/-- The parts of the text with an exponent. -/
def scientificNumeral (sign : Option Char) (d : Decimal) : Numeral :=
  let digits := digitChars d.digits
  ⟨sign, digits.take 1, if digits.length = 1 then none else some (digits.drop 1),
    some (some (if d.power < 0 then '-' else '+'), digitChars d.power.natAbs)⟩

variable {sign : Option Char}

theorem text_positionalNumeral (sign : Option Char) (d : Decimal) :
    (d.positionalNumeral sign).text = sign.toList ++ Binary64.positional d ['.', '0'] := by
  rw [positionalNumeral, Binary64.positional]
  simp only
  split
  · simp [Numeral.text, Numeral.fractionText, Numeral.exponentText]
  · split <;> simp [Numeral.text, Numeral.fractionText, Numeral.exponentText]

theorem text_scientificNumeral (sign : Option Char) (d : Decimal) :
    (d.scientificNumeral sign).text = sign.toList ++ Binary64.scientific d := by
  have written : Binary64.scientific d = (digitChars d.digits).take 1 ++
      (if (digitChars d.digits).length = 1 then [] else '.' :: (digitChars d.digits).drop 1) ++
      'e' :: (if d.power < 0 then '-' else '+') :: digitChars d.power.natAbs := rfl
  rw [written, scientificNumeral, Numeral.text]
  simp only
  split <;> simp [Numeral.fractionText, Numeral.exponentText]

theorem wellFormed_positionalNumeral (hs : ∀ c ∈ sign, c = '+' ∨ c = '-') (d : Decimal) :
    (d.positionalNumeral sign).WellFormed := by
  have digits := List.all_eq_true.1 (all_digitChars d.digits)
  have zeros {k : Nat} : ∀ c ∈ List.replicate k '0', c.isDigit = true := fun c hc => by
    rw [List.eq_of_mem_replicate hc]
    rfl
  rw [positionalNumeral]
  split
  · exact ⟨hs, List.all_eq_true.2 fun c hc => (List.mem_append.1 hc).elim (digits c) (zeros c), rfl,
      by simp, nofun⟩
  · split
    · exact ⟨hs, List.all_eq_true.2 fun c hc => digits c (List.mem_of_mem_take hc),
        List.all_eq_true.2 fun c hc => digits c (List.mem_of_mem_drop hc), by simp; omega, nofun⟩
    · exact ⟨hs, rfl, List.all_eq_true.2 fun c hc =>
        (List.mem_append.1 hc).elim (zeros c) (digits c), by simp, nofun⟩

theorem wellFormed_scientificNumeral (hs : ∀ c ∈ sign, c = '+' ∨ c = '-') (d : Decimal) :
    (d.scientificNumeral sign).WellFormed := by
  have digits := List.all_eq_true.1 (all_digitChars d.digits)
  have first : (digitChars d.digits).take 1 ≠ [] := by simp [digitChars_ne_nil]
  refine ⟨hs, List.all_eq_true.2 fun c hc => digits c (List.mem_of_mem_take hc), ?_,
    fun h => first h.1, ?_⟩
  · simp only [scientificNumeral]
    split
    · rfl
    · exact List.all_eq_true.2 fun c hc => digits c (List.mem_of_mem_drop hc)
  · rintro e ⟨⟩
    refine ⟨?_, digitChars_ne_nil _, all_digitChars _⟩
    rintro c ⟨⟩
    split
    · exact .inr rfl
    · exact .inl rfl

theorem magnitude_positionalNumeral (sign : Option Char) (d : Decimal) :
    (d.positionalNumeral sign).magnitude = d.value := by
  rw [Numeral.magnitude_eq, Numeral.significand_eq, Numeral.scale, value, positionalNumeral]
  split
  · next whole =>
    obtain ⟨k, hk⟩ := Int.eq_ofNat_of_zero_le whole
    simp only [Option.getD_some, Nat.ofDigitChars_append, Nat.ofDigitChars_replicate_zero,
      ofDigitChars_digitChars, Nat.ofDigitChars_cons, Numeral.writtenExponent, hk]
    rw [List.length_singleton, zpow_natCast, Int.toNat_natCast,
      show Nat.ofDigitChars 10 [] (10 * (10 ^ k * d.digits) + ('0'.toNat - '0'.toNat)) =
        10 * (10 ^ k * d.digits) from rfl]
    push_cast
    rw [zpow_neg_one]
    ring
  · split
    · next negative short =>
      have taken : (digitChars d.digits).length -
          ((digitChars d.digits).length - (-d.exponent).toNat) = (-d.exponent).toNat := by omega
      simp only [Option.getD_some, List.take_append_drop, ofDigitChars_digitChars,
        Numeral.writtenExponent, List.length_drop, taken]
      congr 2
      omega
    · next negative long =>
      simp only [Option.getD_some, Numeral.writtenExponent, List.length_append,
        List.length_replicate, Nat.ofDigitChars_append, Nat.ofDigitChars_replicate_zero]
      rw [show Nat.ofDigitChars 10 ['0'] 0 = 0 from rfl, Nat.mul_zero, ofDigitChars_digitChars]
      congr 2
      omega

theorem magnitude_scientificNumeral (sign : Option Char) (d : Decimal) :
    (d.scientificNumeral sign).magnitude = d.value := by
  rw [Numeral.magnitude_eq, Numeral.significand_eq, Numeral.scale, value, scientificNumeral]
  have positive : 0 < (digitChars d.digits).length := Nat.length_toDigits_pos
  have written : (if some (if d.power < 0 then '-' else '+') = some '-'
      then -(d.power.natAbs : Int) else d.power.natAbs) = d.power := by
    by_cases below : d.power < 0
    · rw [if_pos below, if_pos rfl]
      omega
    · rw [if_neg below, if_neg (by decide)]
      omega
  have fraction : (if (digitChars d.digits).length = 1 then none else
      some ((digitChars d.digits).drop 1)).getD [] = (digitChars d.digits).drop 1 := by
    split
    · next one => rw [Option.getD_none, eq_comm, List.drop_eq_nil_iff, one]
    · rfl
  simp only [fraction, List.take_append_drop, ofDigitChars_digitChars, List.length_drop,
    Numeral.writtenExponent, Numeral.appendDigits_eq, written]
  congr 2
  rw [power]
  omega

end Decimal

/-- The sign that is written, which is that of negative numbers only. -/
def signOf (negative : Bool) : Option Char := if negative then some '-' else none

private theorem signOf_sign (negative : Bool) : ∀ c ∈ signOf negative, c = '+' ∨ c = '-' := by
  cases negative with
  | false => nofun
  | true => rintro c ⟨⟩; exact .inr rfl

private theorem signOf_eq_minus (negative : Bool) : (signOf negative == some '-') = negative := by
  cases negative <;> rfl

namespace Binary64

/-- The parts of the text of a float. -/
def numeral (x : Binary64) : Numeral :=
  if x.isZero ∨ (-5 ≤ x.shortest.power ∧ x.shortest.power < 16) then
    x.shortest.positionalNumeral (signOf x.negative)
  else x.shortest.scientificNumeral (signOf x.negative)

variable {x : Binary64}

theorem text_numeral (x : Binary64) : x.numeral.text = x.toText.toList := by
  have sign : x.signText = (signOf x.negative).toList := by
    rw [signText, signOf]
    split <;> rfl
  have written : x.toText.toList = x.signText ++
      if x.isZero ∨ (-5 ≤ x.shortest.power ∧ x.shortest.power < 16)
      then positional x.shortest ['.', '0'] else scientific x.shortest := String.toList_ofList
  rw [written, sign, numeral]
  split
  · exact Decimal.text_positionalNumeral _ _
  · exact Decimal.text_scientificNumeral _ _

theorem wellFormed_numeral (x : Binary64) : x.numeral.WellFormed := by
  rw [numeral]
  split
  · exact Decimal.wellFormed_positionalNumeral (signOf_sign _) _
  · exact Decimal.wellFormed_scientificNumeral (signOf_sign _) _

theorem magnitude_numeral (x : Binary64) : x.numeral.magnitude = x.shortest.value := by
  rw [numeral]
  split
  · exact Decimal.magnitude_positionalNumeral _ _
  · exact Decimal.magnitude_scientificNumeral _ _

theorem negative_numeral (x : Binary64) : x.numeral.negative = x.negative := by
  have sign : x.numeral.sign = signOf x.negative := by
    rw [numeral, Decimal.positionalNumeral, Decimal.scientificNumeral]
    repeat' split
    all_goals rfl
  rw [Numeral.negative, sign, signOf_eq_minus]

/-- A float is written with a point or an exponent. -/
theorem isWhole_numeral (x : Binary64) : x.numeral.isWhole = false := by
  rw [numeral, Decimal.positionalNumeral, Decimal.scientificNumeral, Numeral.isWhole]
  repeat' split
  all_goals simp

theorem Canonical.eq_zero (hx : x.Canonical) (none : x.mantissa = 0) : x = zero x.negative := by
  obtain ⟨negative, mantissa, exponent⟩ := x
  obtain rfl : mantissa = 0 := none
  obtain rfl : exponent = minExponent := hx.full.resolve_right (by simp)
  rfl

/-- The shortest decimal of a float is nearest to the float. -/
theorem nearest?_numeral (hx : x.Canonical) : x.numeral.nearest? = some x := by
  have quotient := decimal_quotient x.numeral.significand x.numeral.scale
  rw [← Numeral.magnitude_eq, magnitude_numeral] at quotient
  rw [x.wellFormed_numeral.nearest?_eq, negative_numeral]
  rcases Nat.eq_zero_or_pos x.mantissa with none | positive
  · have zero : x.shortest.value = 0 := by
      rw [shortest, isZero, none, beq_self_eq_true, if_pos rfl, Decimal.value, Nat.cast_zero,
        zero_mul]
    have den : ((10 ^ (-x.numeral.scale).toNat : Nat) : ℚ) ≠ 0 := by positivity
    rw [zero, div_eq_zero_iff, or_iff_left den, Nat.cast_eq_zero] at quotient
    rw [quotient]
    exact congrArg some (hx.eq_zero none).symm
  · refine ofRatio_of_within hx positive (by positivity) ?_
    rw [quotient]
    exact within_shortest hx positive

end Binary64

namespace Number

/-- The parts of the text of a number. -/
def numeral : Number → Numeral
  | .int i => ⟨signOf (decide (i < 0)), Decimal.digitChars i.natAbs, none, none⟩
  | .float x => x.numeral

theorem text_numeral (m : Number) : m.numeral.text = m.toText.toList := by
  cases m with
  | int i =>
      simp only [numeral, toText, Int.toString_eq_repr, Int.repr_eq_if, Numeral.text,
        Numeral.fractionText, Numeral.exponentText, Decimal.digitChars, List.append_nil]
      by_cases h : i < 0
      · rw [decide_eq_true h, if_neg (by omega), String.toList_append, Nat.toList_repr,
          show (-i).toNat = i.natAbs by omega]
        rfl
      · rw [decide_eq_false h, if_pos (by omega), Nat.toList_repr, show i.toNat = i.natAbs by omega]
        rfl
  | float x => exact x.text_numeral

theorem wellFormed_numeral (m : Number) : m.numeral.WellFormed := by
  cases m with
  | int i =>
      exact ⟨signOf_sign _, Decimal.all_digitChars _, rfl,
        fun h => Decimal.digitChars_ne_nil _ h.1, nofun⟩
  | float x => exact x.wellFormed_numeral

theorem wholeValue_numeral (i : Int) : (Number.int i).numeral.wholeValue = i := by
  rw [Numeral.wholeValue, Numeral.negative, Numeral.appendDigits_eq, numeral, signOf_eq_minus,
    Decimal.ofDigitChars_digitChars]
  by_cases h : i < 0
  · rw [decide_eq_true h, if_pos rfl]
    omega
  · rw [decide_eq_false h, if_neg Bool.false_ne_true]
    omega

/-- The text of a number is read as the parts it was written from. -/
theorem read?_toText (m : Number) :
    Numeral.read? (Text.trimChars m.toText.toList) = some m.numeral := by
  rw [← text_numeral, m.wellFormed_numeral.trimChars_text, Numeral.read?_text m.wellFormed_numeral]

end Number

end FormTree
