import FormTree.Proofs.Numeral.Printed
import FormTree.Proofs.Submission.Cast

/-!
The casts of scalars and their order. What a cast gives is refused by the casts before it
and kept by itself, so that a second cast changes nothing.
-/

namespace FormTree

/-- Only an integer is written like one. -/
theorem Number.eq_int_of_toText {m : Number} {i : Int} (h : m.toText = (Number.int i).toText) :
    m = .int i := by
  have parts := m.read?_toText
  rw [h, (Number.int i).read?_toText, Option.some_inj] at parts
  cases m with
  | int j =>
      rw [← wholeValue_numeral i, parts, wholeValue_numeral]
  | float x =>
      have whole := x.isWhole_numeral
      rw [← show (Number.int i).numeral = x.numeral from parts] at whole
      cases whole

theorem Number.toText_ne_empty (m : Number) : m.toText ≠ "" := by
  intro h
  have parts := m.read?_toText
  rw [h] at parts
  cases parts

namespace Submission

/-- A float as a number of a node: where only integers are declared, a whole one is an integer. -/
def settled (types : TypeSet) (x : Binary64) : Number :=
  if isIntegerOnly types then (wholeNumber? x).getD (.float x) else .float x

/-- What a value is as a number. -/
def numberOf? (types : TypeSet) : Json → Option Number
  | .number (.int i) => some (.int i)
  | .number (.float x) => some (settled types x)
  | .string text => parseNumber? (isIntegerOnly types) text
  | _ => none

/-- What a value is as a boolean. -/
def booleanOf? : Json → Option Bool
  | .bool b => some b
  | .string s => if s = "0" then some false else if s = "1" then some true else none
  | .number (.int n) => if n = 0 then some false else if n = 1 then some true else none
  | _ => none

/-- What a value is as a text. -/
def textOf? : Json → Option String
  | .string s => some s
  | .null => some ""
  | .bool b => some (Json.bool b).compact
  | .number m => some m.toText
  | _ => none

variable {types : TypeSet} {v w : Json} {m : Number} {x : Binary64}

theorem castNumber?_eq (types : TypeSet) (v : Json) : castNumber? types v =
    if types.isNumeric = true then (numberOf? types v).map .number else none := by
  unfold castNumber? numberOf? settled
  split
  · cases v with
    | number m =>
        cases m with
        | int i => rfl
        | float x => dsimp only; split <;> rfl
    | _ => rfl
  · rfl

theorem castNumber?_eq_some_iff : castNumber? types v = some w ↔
    types.isNumeric = true ∧ ∃ m, numberOf? types v = some m ∧ .number m = w := by
  rw [castNumber?_eq, Option.ite_none_right_eq_some, Option.map_eq_some_iff]

theorem castNumber?_eq_none_iff : castNumber? types v = none ↔
    (types.isNumeric = true → numberOf? types v = none) := by
  rw [castNumber?_eq, ite_eq_right_iff, Option.map_eq_none_iff]

theorem castBoolean?_eq (types : TypeSet) (v : Json) : castBoolean? types v =
    if types.contains .boolean = true then (booleanOf? v).map .bool else none := by
  unfold castBoolean? booleanOf?
  split
  · cases v with
    | string s => simp only [apply_ite (Option.map Json.bool), Option.map_some, Option.map_none]
    | number m =>
        cases m with
        | int i => simp only [apply_ite (Option.map Json.bool), Option.map_some, Option.map_none]
        | float x => rfl
    | _ => rfl
  · rfl

theorem castBoolean?_eq_some_iff : castBoolean? types v = some w ↔
    types.contains .boolean = true ∧ ∃ b, booleanOf? v = some b ∧ .bool b = w := by
  rw [castBoolean?_eq, Option.ite_none_right_eq_some, Option.map_eq_some_iff]

theorem castBoolean?_eq_none_iff : castBoolean? types v = none ↔
    (types.contains .boolean = true → booleanOf? v = none) := by
  rw [castBoolean?_eq, ite_eq_right_iff, Option.map_eq_none_iff]

theorem castNull?_eq_some_iff : castNull? types v = some w ↔
    (types.contains .null = true ∧ isEmpty v = true) ∧ .null = w := by
  rw [castNull?, Option.ite_none_right_eq_some, Bool.and_eq_true, Option.some_inj]

theorem castNull?_eq_none_iff : castNull? types v = none ↔
    (types.contains .null = true → isEmpty v = false) := by
  rw [castNull?]
  cases types.contains .null <;> cases isEmpty v <;> simp

theorem castString?_eq (types : TypeSet) (v : Json) : castString? types v =
    if types.contains .string = true then (textOf? v).map .string else none := by
  unfold castString? textOf?
  split
  · cases v <;> rfl
  · rfl

theorem castString?_eq_some_iff : castString? types v = some w ↔
    types.contains .string = true ∧ ∃ s, textOf? v = some s ∧ .string s = w := by
  rw [castString?_eq, Option.ite_none_right_eq_some, Option.map_eq_some_iff]

/-- The first cast that accepts a value, with what it gives. -/
inductive Coerced (types : TypeSet) (v : Json) : Json → Prop
  | number {m : Number} (accepts : castNumber? types v = some (.number m)) :
      Coerced types v (.number m)
  | boolean {b : Bool} (number : castNumber? types v = none)
      (accepts : castBoolean? types v = some (.bool b)) : Coerced types v (.bool b)
  | null (number : castNumber? types v = none) (boolean : castBoolean? types v = none)
      (accepts : castNull? types v = some .null) : Coerced types v .null
  | text {s : String} (number : castNumber? types v = none) (boolean : castBoolean? types v = none)
      (null : castNull? types v = none) (accepts : castString? types v = some (.string s)) :
      Coerced types v (.string s)
  | kept (number : castNumber? types v = none) (boolean : castBoolean? types v = none)
      (null : castNull? types v = none) (text : castString? types v = none) : Coerced types v v

theorem coerced (types : TypeSet) (v : Json) : Coerced types v (castScalar types v) := by
  rw [castScalar]
  cases number : castNumber? types v with
  | some w =>
      obtain ⟨-, m, -, rfl⟩ := castNumber?_eq_some_iff.1 number
      exact .number number
  | none =>
      cases boolean : castBoolean? types v with
      | some w =>
          obtain ⟨-, b, -, rfl⟩ := castBoolean?_eq_some_iff.1 boolean
          exact .boolean number boolean
      | none =>
          cases null : castNull? types v with
          | some w =>
              obtain ⟨-, rfl⟩ := castNull?_eq_some_iff.1 null
              exact .null number boolean null
          | none =>
              cases text : castString? types v with
              | some w =>
                  obtain ⟨-, s, -, rfl⟩ := castString?_eq_some_iff.1 text
                  exact .text number boolean null text
              | none => exact .kept number boolean null text

/-- What is accepted first is what a value is cast to. -/
theorem Coerced.castScalar_eq (h : Coerced types v w) : castScalar types v = w := by
  cases h with
  | number accepts => rw [castScalar, accepts]; rfl
  | boolean number accepts => rw [castScalar, number, accepts]; rfl
  | null number boolean accepts => rw [castScalar, number, boolean, accepts]; rfl
  | text number boolean null accepts => rw [castScalar, number, boolean, null, accepts]; rfl
  | kept number boolean null text => rw [castScalar, number, boolean, null, text]; rfl

theorem toInt?_of_wholeNumber? (h : wholeNumber? x = some m) :
    ∃ i, x.toInt? = some i ∧ m = .int i := by
  obtain ⟨i, whole, hi⟩ := Option.bind_eq_some_iff.1 h
  rw [Option.ite_none_right_eq_some, Option.some_inj] at hi
  exact ⟨i, whole, hi.2.symm⟩

/-- A settled float is the float, or the integer that it is. -/
theorem settled_cases (types : TypeSet) (x : Binary64) :
    settled types x = .float x ∨ ∃ i, x.toInt? = some i ∧ settled types x = .int i := by
  rw [settled]
  split
  · cases h : wholeNumber? x with
    | none => exact .inl rfl
    | some m =>
        obtain ⟨i, whole, rfl⟩ := toInt?_of_wholeNumber? h
        exact .inr ⟨i, whole, rfl⟩
  · exact .inl rfl

theorem numberOf?_settled (types : TypeSet) (x : Binary64) :
    numberOf? types (.number (settled types x)) = some (settled types x) := by
  rcases settled_cases types x with float | ⟨i, -, int⟩
  · rw [float, numberOf?, float]
  · rw [int]
    rfl

theorem parseNumber?_eq (types : TypeSet) (text : String) :
    parseNumber? (isIntegerOnly types) text =
      (Numeral.read? (Text.trimChars text.toList)).bind fun n =>
        if n.isWhole = true ∧ Int64.minValue.toInt ≤ n.wholeValue ∧
            n.wholeValue ≤ (Numeral.maxWord : Int) then some (.int n.wholeValue)
        else n.nearest?.map (settled types) := by
  rw [parseNumber?]
  congr
  funext n
  simp only [Bool.and_eq_true, decide_eq_true_eq, and_assoc]
  rfl

theorem numberOf?_again (h : numberOf? types v = some m) :
    numberOf? types (.number m) = some m := by
  cases v with
  | number k =>
      cases k with
      | int i =>
          cases h
          rfl
      | float x =>
          cases h
          exact numberOf?_settled types x
  | string text =>
      rw [numberOf?, parseNumber?_eq] at h
      obtain ⟨n, -, parsed⟩ := Option.bind_eq_some_iff.1 h
      split at parsed
      · cases parsed
        rfl
      · obtain ⟨x, -, rfl⟩ := Option.map_eq_some_iff.1 parsed
        exact numberOf?_settled types x
  | _ => cases h

/-- The text of a value is no number unless the value is one, or was a text before. -/
theorem numberOf?_text {s : String} (number : numberOf? types v = none)
    (text : textOf? v = some s) : numberOf? types (.string s) = none := by
  cases v with
  | string s' =>
      cases text
      exact number
  | null =>
      cases text
      rfl
  | bool b =>
      cases text
      cases b <;> rfl
  | number m =>
      cases m <;> cases number
  | _ => cases text

/-- The text of a number is zero or one only if the number is. -/
theorem booleanOf?_text {s : String} (boolean : booleanOf? v = none)
    (text : textOf? v = some s) : booleanOf? (.string s) = none := by
  cases v with
  | string s' =>
      cases text
      exact boolean
  | null =>
      cases text
      rfl
  | bool b => cases boolean
  | number m =>
      cases text
      have zero : m.toText ≠ "0" := by
        intro h
        cases Number.eq_int_of_toText (i := 0) h
        cases boolean
      have one : m.toText ≠ "1" := by
        intro h
        cases Number.eq_int_of_toText (i := 1) h
        cases boolean
      rw [booleanOf?, if_neg zero, if_neg one]
  | _ => cases text

/-- The text of a value is empty only if the value is. -/
theorem isEmpty_text {s : String} (full : isEmpty v = false)
    (text : textOf? v = some s) : isEmpty (.string s) = false := by
  cases v with
  | string s' =>
      cases text
      exact full
  | null => cases full
  | bool b =>
      cases text
      cases b <;> rfl
  | number m =>
      cases text
      exact String.isEmpty_eq_false_iff.2 m.toText_ne_empty
  | _ => cases text

theorem Coerced.again (h : Coerced types v w) : Coerced types w w := by
  cases h with
  | @number m accepts =>
      obtain ⟨numeric, m, number, ⟨⟩⟩ := castNumber?_eq_some_iff.1 accepts
      exact .number (castNumber?_eq_some_iff.2 ⟨numeric, m, numberOf?_again number, rfl⟩)
  | @boolean b number accepts =>
      have declared := (castBoolean?_eq_some_iff.1 accepts).1
      exact .boolean (castNumber?_eq_none_iff.2 fun _ => rfl)
        (castBoolean?_eq_some_iff.2 ⟨declared, b, rfl, rfl⟩)
  | null number boolean accepts =>
      have declared := (castNull?_eq_some_iff.1 accepts).1.1
      exact .null (castNumber?_eq_none_iff.2 fun _ => rfl) (castBoolean?_eq_none_iff.2 fun _ => rfl)
        (castNull?_eq_some_iff.2 ⟨⟨declared, rfl⟩, rfl⟩)
  | @text s number boolean null accepts =>
      obtain ⟨declared, s, text, ⟨⟩⟩ := castString?_eq_some_iff.1 accepts
      rw [castNumber?_eq_none_iff] at number
      rw [castBoolean?_eq_none_iff] at boolean
      rw [castNull?_eq_none_iff] at null
      exact .text (castNumber?_eq_none_iff.2 fun numeric => numberOf?_text (number numeric) text)
        (castBoolean?_eq_none_iff.2 fun flag => booleanOf?_text (boolean flag) text)
        (castNull?_eq_none_iff.2 fun nullable => isEmpty_text (null nullable) text)
        (castString?_eq_some_iff.2 ⟨declared, s, rfl, rfl⟩)
  | kept number boolean null text => exact .kept number boolean null text

theorem castScalar_castScalar (types : TypeSet) (v : Json) :
    castScalar types (castScalar types v) = castScalar types v :=
  (coerced types v).again.castScalar_eq

theorem castScalar_null (null : types.contains .null = true) : castScalar types .null = .null := by
  refine (Coerced.null ?_ ?_ ?_).castScalar_eq
  · exact castNumber?_eq_none_iff.2 fun _ => rfl
  · exact castBoolean?_eq_none_iff.2 fun _ => rfl
  · exact castNull?_eq_some_iff.2 ⟨⟨null, rfl⟩, rfl⟩

theorem castScalar_bool (boolean : types.contains .boolean = true) (b : Bool) :
    castScalar types (.bool b) = .bool b := by
  refine (Coerced.boolean ?_ ?_).castScalar_eq
  · exact castNumber?_eq_none_iff.2 fun _ => rfl
  · exact castBoolean?_eq_some_iff.2 ⟨boolean, b, rfl, rfl⟩

theorem castScalar_number (numeric : types.isNumeric = true)
    (settled : numberOf? types (.number m) = some m) :
    castScalar types (.number m) = .number m :=
  (Coerced.number (castNumber?_eq_some_iff.2 ⟨numeric, m, settled, rfl⟩)).castScalar_eq

/-- A text stays one where it is no number, no boolean and not empty. -/
theorem castScalar_text {text : String} (number : types.isNumeric = false)
    (boolean : types.contains .boolean = true → text ≠ "0" ∧ text ≠ "1")
    (null : types.contains .null = true → text ≠ "") :
    castScalar types (.string text) = .string text := by
  have first := coerced types (.string text)
  generalize castScalar types (.string text) = w at first
  cases first with
  | number accepts =>
      obtain ⟨numeric, -⟩ := castNumber?_eq_some_iff.1 accepts
      cases number.symm.trans numeric
  | boolean _ accepts =>
      obtain ⟨declared, b, bit, -⟩ := castBoolean?_eq_some_iff.1 accepts
      rw [booleanOf?, if_neg (boolean declared).1, if_neg (boolean declared).2] at bit
      cases bit
  | null _ _ accepts =>
      obtain ⟨⟨declared, empty⟩, -⟩ := castNull?_eq_some_iff.1 accepts
      exact absurd (String.isEmpty_iff.1 empty) (null declared)
  | text _ _ _ accepts =>
      obtain ⟨-, _, ⟨⟩, ⟨⟩⟩ := castString?_eq_some_iff.1 accepts
      rfl
  | kept => rfl

end Submission

end FormTree
