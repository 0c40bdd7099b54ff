import FormTree.Proofs.Submission.Recast
import FormTree.Validation.Assertion

/-!
What the types of a node say about a cast. A scalar of a declared type is cast to one, except
that a text which reads as a fraction becomes a float wherever numbers are cast. An integer read
from a text is the number that the text denotes, or the binary64 number nearest to it.
-/

namespace FormTree.Submission

variable {s : Schema} {types : TypeSet} {v w : Json} {t : JsonType} {x : Binary64}

theorem holds_of_contains (declared : types.contains t = true) (h : t.admits true v = true) :
    (Assertion.types types true).holds v = true :=
  List.any_eq_true.2 ⟨t, List.contains_iff_mem.1 declared, h⟩

theorem isNumeric_iff : types.isNumeric = true ↔
    types.contains .integer = true ∨ types.contains .number = true := by
  rw [TypeSet.isNumeric, Bool.or_eq_true]

theorem holds_int (numeric : types.isNumeric = true) (i : Int) :
    (Assertion.types types true).holds (.number (.int i)) = true :=
  (isNumeric_iff.1 numeric).elim (fun h => holds_of_contains h rfl) fun h => holds_of_contains h rfl

/-- A float is a number, and an integer if it is whole. -/
theorem holds_float_iff : (Assertion.types types true).holds (.number (.float x)) = true ↔
    types.contains .number = true ∨ types.contains .integer = true ∧ x.toInt?.isSome = true := by
  constructor
  · intro h
    obtain ⟨t, declared, admits⟩ := List.any_eq_true.1 h
    rw [← List.contains_iff_mem] at declared
    cases t with
    | number => exact .inl declared
    | integer => exact .inr ⟨declared, admits⟩
    | _ => cases admits
  · rintro (number | ⟨integer, whole⟩)
    · exact holds_of_contains number rfl
    · exact holds_of_contains integer whole

theorem isIntegerOnly_iff : isIntegerOnly types = true ↔
    types.contains .integer = true ∧ types.contains .number = false := by
  rw [isIntegerOnly, Bool.and_eq_true, Bool.not_eq_true']

/-- A settled float is of a declared type unless only integers are and it is a fraction. -/
theorem holds_settled_iff (numeric : types.isNumeric = true) :
    (Assertion.types types true).holds (.number (settled types x)) = true ↔
      ¬(isIntegerOnly types = true ∧ x.toInt? = none) := by
  by_cases only : isIntegerOnly types = true
  · obtain ⟨integer, number⟩ := isIntegerOnly_iff.1 only
    rw [settled, if_pos only]
    cases h : wholeNumber? x with
    | some m =>
        obtain ⟨i, whole, rfl⟩ := toInt?_of_wholeNumber? h
        simp [holds_int numeric, whole]
    | none =>
        rw [Option.getD_none, holds_float_iff, number, integer, Option.isSome_iff_ne_none]
        simp [only]
  · have number : types.contains .number = true := by
      rw [isIntegerOnly_iff, not_and, Bool.not_eq_false] at only
      exact (isNumeric_iff.1 numeric).elim only id
    rw [settled, if_neg only, holds_float_iff]
    exact iff_of_true (.inl number) fun h => only h.1

/-- The text is read as a numeral whose nearest number is a fraction. -/
def ReadsAsFraction (text : String) : Prop :=
  ∃ n x, Numeral.read? (Text.trimChars text.toList) = some n ∧ n.nearest? = some x ∧
    x.toInt? = none

theorem numberOf?_ne_none {text : String} (h : ReadsAsFraction text) :
    numberOf? types (.string text) ≠ none := by
  obtain ⟨n, x, read, nearest, -⟩ := h
  rw [numberOf?, parseNumber?_eq, read, Option.bind_some, nearest]
  split <;> exact Option.some_ne_none _

theorem holds_parsed_iff (numeric : types.isNumeric = true) {text : String} {m : Number}
    (h : numberOf? types (.string text) = some m) :
    (Assertion.types types true).holds (.number m) = true ↔
      ¬(isIntegerOnly types = true ∧ ReadsAsFraction text) := by
  rw [numberOf?, parseNumber?_eq] at h
  obtain ⟨n, read, parsed⟩ := Option.bind_eq_some_iff.1 h
  split at parsed
  · next fits =>
    cases parsed
    refine iff_of_true (holds_int numeric _) ?_
    rintro ⟨-, n', x, read', nearest, fraction⟩
    cases read.symm.trans read'
    have whole := (Numeral.wellFormed_of_read? read).isSome_toInt? fits.1 nearest
    rw [fraction] at whole
    cases whole
  · obtain ⟨x, nearest, rfl⟩ := Option.map_eq_some_iff.1 parsed
    rw [holds_settled_iff numeric]
    refine not_congr (and_congr_right fun _ => ⟨fun h => ⟨n, x, read, nearest, h⟩, ?_⟩)
    rintro ⟨n', x', read', nearest', fraction⟩
    cases read.symm.trans read'
    cases nearest.symm.trans nearest'
    exact fraction

/-- A number of a declared type remains one. -/
theorem holds_settled {k m : Number} (numeric : types.isNumeric = true)
    (declared : (Assertion.types types true).holds (.number k) = true)
    (h : numberOf? types (.number k) = some m) :
    (Assertion.types types true).holds (.number m) = true := by
  cases k with
  | int i =>
      cases h
      exact declared
  | float x =>
      cases h
      rw [holds_settled_iff numeric]
      rintro ⟨only, fraction⟩
      rw [holds_float_iff, (isIntegerOnly_iff.1 only).2, fraction] at declared
      simp at declared

/-- The type of a scalar is lost by the cast of a text that reads as a fraction where integers
are declared and numbers are not, and by no other. -/
theorem holds_cast_iff (leaf : v.isContainer = false)
    (declared : (Assertion.types s.types true).holds v = true) :
    (Assertion.types s.types true).holds (cast s v) = true ↔
      ¬(isIntegerOnly s.types = true ∧ ∃ text, v = .string text ∧ ReadsAsFraction text) := by
  rw [cast_leaf s leaf]
  have first := coerced s.types v
  generalize castScalar s.types v = w at first
  have refused (number : castNumber? s.types v = none) :
      ¬(isIntegerOnly s.types = true ∧ ∃ text, v = .string text ∧ ReadsAsFraction text) := by
    rintro ⟨only, text, rfl, fraction⟩
    have numeric := isNumeric_iff.2 (.inl (isIntegerOnly_iff.1 only).1)
    exact numberOf?_ne_none fraction (castNumber?_eq_none_iff.1 number numeric)
  cases first with
  | number accepts =>
      obtain ⟨numeric, m, number, ⟨⟩⟩ := castNumber?_eq_some_iff.1 accepts
      cases v with
      | string text =>
          rw [holds_parsed_iff numeric number]
          simp
      | number k =>
          refine iff_of_true (holds_settled numeric declared number) ?_
          rintro ⟨-, text, ⟨⟩, -⟩
      | _ => cases number
  | boolean number accepts =>
      have boolean := (castBoolean?_eq_some_iff.1 accepts).1
      exact iff_of_true (holds_of_contains boolean rfl) (refused number)
  | null number _ accepts =>
      have null := (castNull?_eq_some_iff.1 accepts).1.1
      exact iff_of_true (holds_of_contains null rfl) (refused number)
  | text number _ _ accepts =>
      have string := (castString?_eq_some_iff.1 accepts).1
      exact iff_of_true (holds_of_contains string rfl) (refused number)
  | kept number => exact iff_of_true declared (refused number)

private def leafOf (types : TypeSet) : Schema := ⟨types, none, none, none, none, .scalar⟩

private def two : Numeral := ⟨none, ['2'], some ['0'], none⟩

private def twoAndHalf : Numeral := ⟨none, ['2'], some ['5'], none⟩

/-- Of two texts where integers and texts are declared, the whole one is cast to an integer, and the
fraction to what is not declared. -/
theorem holds_cast_of_fraction :
    (Assertion.types [.integer, .string] true).holds
        (cast (leafOf [.integer, .string]) (.string "2.0")) = true ∧
      ¬(Assertion.types [.integer, .string] true).holds
        (cast (leafOf [.integer, .string]) (.string "2.5")) = true := by
  constructor
  · refine (holds_cast_iff (s := leafOf [.integer, .string]) rfl (by decide)).2 ?_
    rintro ⟨-, _, ⟨⟩, n, x, read, nearest, fraction⟩
    have reads : Numeral.read? (Text.trimChars "2.0".toList) = some two := by decide
    have whole : two.nearest?.bind Binary64.toInt? = some 2 := by decide +kernel
    cases reads.symm.trans read
    rw [nearest, Option.bind_some, fraction] at whole
    cases whole
  · refine mt (holds_cast_iff (s := leafOf [.integer, .string]) rfl (by decide)).1 (not_not.2 ?_)
    refine ⟨by decide, "2.5", rfl, twoAndHalf, ⟨false, 5 <<< 50, -51⟩, ?_⟩
    exact ⟨by decide, by decide +kernel, by decide +kernel⟩

/-- A text is of a declared type, and what it is cast to is not. -/
theorem not_holds_cast : ¬∀ (s : Schema) (v : Json), v.isContainer = false →
    (Assertion.types s.types true).holds v = true →
      (Assertion.types s.types true).holds (cast s v) = true := by
  intro h
  have kept := h (leafOf [.integer, .string]) (.string "2.5") rfl (by decide)
  revert kept
  decide +kernel

/-- An integer that is read from a text is what the text denotes, if that has only digits and
fits 64 bits or is a binary64 number, and else the binary64 number nearest to it. -/
theorem cast_text_int {text : String} {k : Int} (h : cast s (.string text) = .number (.int k)) :
    ∃ n, Numeral.read? (Text.trimChars text.toList) = some n ∧
      ((k : ℚ) = n.value ↔
        (n.isWhole = true ∧ Int64.minValue.toInt ≤ n.wholeValue ∧
            n.wholeValue ≤ (Numeral.maxWord : Int)) ∨
          ∃ y : Binary64, y.Canonical ∧ y.value = n.value) ∧
      ((k : ℚ) ≠ n.value → ∃ x : Binary64, x.Canonical ∧ x.value = k ∧ x.NearestTo n.value) := by
  rw [cast_leaf s rfl] at h
  have first := coerced s.types (.string text)
  rw [h] at first
  cases first with
  | number accepts =>
      obtain ⟨-, m, read, ⟨⟩⟩ := castNumber?_eq_some_iff.1 accepts
      rw [numberOf?, parseNumber?_eq] at read
      obtain ⟨n, parsed, read⟩ := Option.bind_eq_some_iff.1 read
      refine ⟨n, parsed, ?_⟩
      split at read
      · next fits =>
        cases read
        have same := n.value_of_isWhole fits.1
        exact ⟨iff_of_true same.symm (.inl fits), fun other => absurd same.symm other⟩
      · next unfit =>
        obtain ⟨x, nearest, settles⟩ := Option.map_eq_some_iff.1 read
        obtain ⟨canonical, -, near⟩ := (Numeral.wellFormed_of_read? parsed).nearestTo nearest
        have whole : x.value = k := by
          rcases settled_cases s.types x with float | ⟨i, whole, int⟩
          · cases float.symm.trans settles
          · cases int.symm.trans settles
            exact Binary64.toInt?_eq_some_iff.1 whole
        rw [or_iff_right unfit, ← near.value_eq_iff canonical, whole]
        exact ⟨Iff.rfl, fun _ => ⟨x, canonical, whole, near⟩⟩

private def roundedText : String := "9007199254740993.0"

private def roundedNumeral : Numeral := ⟨none, "9007199254740993".toList, some ['0'], none⟩

theorem cast_roundedText :
    ∃ n, Numeral.read? (Text.trimChars roundedText.toList) = some n ∧
      (((9007199254740992 : Int) : ℚ) = n.value ↔
        (n.isWhole = true ∧ Int64.minValue.toInt ≤ n.wholeValue ∧
            n.wholeValue ≤ (Numeral.maxWord : Int)) ∨
          ∃ y : Binary64, y.Canonical ∧ y.value = n.value) ∧
      (((9007199254740992 : Int) : ℚ) ≠ n.value →
        ∃ x : Binary64, x.Canonical ∧ x.value = (9007199254740992 : Int) ∧ x.NearestTo n.value) :=
  cast_text_int (show cast (leafOf [.integer]) (.string roundedText) =
    .number (.int 9007199254740992) by decide +kernel)

private theorem value_roundedNumeral : roundedNumeral.value = 9007199254740993 := by
  have significand : roundedNumeral.significand = 90071992547409930 := by decide +kernel
  have scale : roundedNumeral.scale = -1 := by decide
  rw [Numeral.value, Numeral.magnitude_eq, significand, scale]
  norm_num [Binary64.signed, Numeral.negative, roundedNumeral]

/-- Not every integer that is read from a text is what the text denotes. -/
theorem not_cast_text_exact : ¬∀ (s : Schema) (text : String) (k : Int),
    s.types.contains .integer = true → s.types.contains .number = false →
      cast s (.string text) = .number (.int k) →
        ∃ n, Numeral.read? (Text.trimChars text.toList) = some n ∧ (k : ℚ) = n.value := by
  intro h
  obtain ⟨n, read, exact_value⟩ := h (leafOf [.integer]) roundedText 9007199254740992 rfl rfl
    (by decide +kernel)
  have parts : Numeral.read? (Text.trimChars roundedText.toList) = some roundedNumeral := by
    decide +kernel
  cases parts.symm.trans read
  rw [value_roundedNumeral] at exact_value
  norm_num at exact_value

end FormTree.Submission
