import FormTree.Numeral

/-!
The text of a numeral, and its reading. What is read has digits where digits belong
and a digit in the mantissa, and every numeral of that form is read back from its text.
-/

namespace FormTree.Numeral

/-- Digits in all the places for digits, at least one of them in the mantissa. -/
structure WellFormed (n : Numeral) : Prop where
  sign : ∀ c ∈ n.sign, c = '+' ∨ c = '-'
  whole : n.whole.all Char.isDigit = true
  fraction : (n.fraction.getD []).all Char.isDigit = true
  mantissa : ¬(n.whole = [] ∧ n.fraction.getD [] = [])
  exponent : ∀ e ∈ n.exponent,
    (∀ c ∈ e.1, c = '+' ∨ c = '-') ∧ e.2 ≠ [] ∧ e.2.all Char.isDigit = true

def fractionText : Option (List Char) → List Char
  | none => []
  | some digits => '.' :: digits

def exponentText : Option (Option Char × List Char) → List Char
  | none => []
  | some (sign, digits) => 'e' :: (sign.toList ++ digits)

def text (n : Numeral) : List Char :=
  n.sign.toList ++ (n.whole ++ (fractionText n.fraction ++ exponentText n.exponent))

/-- How an exponent may be written. Its mark is a letter of either case. -/
inductive WritesExponent : Option (Option Char × List Char) → List Char → Prop
  | none : WritesExponent none []
  | some {mark : Char} (letter : mark = 'e' ∨ mark = 'E') (sign : Option Char)
      (digits : List Char) : WritesExponent (some (sign, digits)) (mark :: (sign.toList ++ digits))

theorem writesExponent_text (exponent : Option (Option Char × List Char)) :
    WritesExponent exponent (exponentText exponent) := by
  cases exponent with
  | none => exact .none
  | some e => exact .some (.inl rfl) e.1 e.2

/-- The parts of a numeral stand in a text one after the other. -/
structure Spells (n : Numeral) (cs : List Char) : Prop where
  wellFormed : n.WellFormed
  parts : ∃ tail, WritesExponent n.exponent tail ∧
    cs = n.sign.toList ++ (n.whole ++ (fractionText n.fraction ++ tail))

section Reading

variable {cs digits rest : List Char} {sign : Option Char}

theorem splitSign_append (hs : ∀ c ∈ sign, c = '+' ∨ c = '-')
    (hr : ∀ c ∈ rest.head?, c ≠ '+' ∧ c ≠ '-') :
    splitSign (sign.toList ++ rest) = (sign, rest) := by
  cases sign with
  | some c => rcases hs c rfl with rfl | rfl <;> rfl
  | none =>
      cases rest with
      | nil => rfl
      | cons c rest =>
          obtain ⟨plus, minus⟩ := hr c rfl
          simp only [Option.toList_none, List.nil_append]
          unfold splitSign
          split <;> simp_all

theorem sign_of_splitSign (h : splitSign cs = (sign, rest)) : ∀ c ∈ sign, c = '+' ∨ c = '-' := by
  unfold splitSign at h
  split at h <;> cases h <;> simp

theorem append_splitSign (cs : List Char) :
    (splitSign cs).1.toList ++ (splitSign cs).2 = cs := by
  unfold splitSign
  split <;> rfl

theorem span_digits (hd : digits.all Char.isDigit = true)
    (hr : ∀ c ∈ rest.head?, c.isDigit = false) :
    (digits ++ rest).takeWhile Char.isDigit = digits ∧
      (digits ++ rest).dropWhile Char.isDigit = rest := by
  induction digits with
  | nil =>
      cases rest with
      | nil => exact ⟨rfl, rfl⟩
      | cons c rest => simp [hr c rfl]
  | cons c digits ih =>
      rw [List.all_cons, Bool.and_eq_true] at hd
      simp [hd.1, ih hd.2]

theorem splitFraction_append {fraction : Option (List Char)}
    (hf : (fraction.getD []).all Char.isDigit = true)
    (hr : ∀ c ∈ rest.head?, c.isDigit = false ∧ c ≠ '.') :
    splitFraction (fractionText fraction ++ rest) = (fraction, rest) := by
  cases fraction with
  | some digits =>
      have all : digits.all Char.isDigit = true := hf
      obtain ⟨taken, left⟩ := span_digits all fun c hc => (hr c hc).1
      rw [fractionText, List.cons_append, splitFraction, taken, left]
  | none =>
      cases rest with
      | nil => rfl
      | cons c rest =>
          have point := (hr c rfl).2
          simp only [fractionText, List.nil_append]
          unfold splitFraction
          split <;> simp_all

theorem readExponent?_written {exponent : Option (Option Char × List Char)} {tail : List Char}
    (h : ∀ e ∈ exponent, (∀ c ∈ e.1, c = '+' ∨ c = '-') ∧ e.2 ≠ [] ∧ e.2.all Char.isDigit = true)
    (written : WritesExponent exponent tail) : readExponent? tail = some exponent := by
  cases written with
  | none => rfl
  | some letter sign digits =>
      obtain ⟨signed, nonempty, all⟩ := h _ rfl
      have split : splitSign (sign.toList ++ digits) = (sign, digits) :=
        splitSign_append signed fun c hc => by
          have digit := List.all_eq_true.1 all c (List.mem_of_mem_head? hc)
          constructor <;> rintro rfl <;> exact absurd digit (by decide)
      rw [readExponent?, split]
      exact if_pos ⟨letter, nonempty, all⟩

end Reading

/-- What a numeral is written as is read as the numeral. -/
theorem Spells.read? {n : Numeral} {cs : List Char} (h : n.Spells cs) : read? cs = some n := by
  obtain ⟨wf, tail, written, rfl⟩ := h
  obtain ⟨sign, whole, fraction, exponent⟩ := n
  have mark : ∀ c ∈ tail.head?, c = 'e' ∨ c = 'E' := by
    cases written with
    | none => nofun
    | some letter _ _ => rintro c ⟨⟩; exact letter
  have rest : ∀ c ∈ (fractionText fraction ++ tail).head?, c = '.' ∨ c = 'e' ∨ c = 'E' := by
    cases fraction with
    | none => exact fun c hc => .inr (mark c hc)
    | some digits => simp [fractionText]
  have body : ∀ c ∈ (whole ++ (fractionText fraction ++ tail)).head?, c ≠ '+' ∧ c ≠ '-' := by
    cases whole with
    | nil => exact fun c hc => by rcases rest c hc with rfl | rfl | rfl <;> decide
    | cons d whole =>
        have digit := List.all_eq_true.1 wf.whole d List.mem_cons_self
        rintro c ⟨⟩
        constructor <;> rintro rfl <;> exact absurd digit (by decide)
  obtain ⟨taken, left⟩ := span_digits wf.whole fun c hc =>
    show c.isDigit = false by rcases rest c hc with rfl | rfl | rfl <;> decide
  have parts : splitFraction (fractionText fraction ++ tail) = (fraction, tail) :=
    splitFraction_append wf.fraction fun c hc => by rcases mark c hc with rfl | rfl <;> decide
  simp only [Numeral.read?, splitSign_append wf.sign body, taken, left, parts]
  rw [if_neg wf.mantissa, readExponent?_written wf.exponent written]
  rfl

theorem read?_text {n : Numeral} (h : n.WellFormed) : read? n.text = some n :=
  Spells.read? ⟨h, _, writesExponent_text n.exponent, rfl⟩

private theorem fraction_of_splitFraction {cs rest : List Char} {fraction : Option (List Char)}
    (h : splitFraction cs = (fraction, rest)) : (fraction.getD []).all Char.isDigit = true := by
  unfold splitFraction at h
  split at h <;> cases h
  · exact List.all_takeWhile
  · rfl

private theorem exponent_of_readExponent? {cs : List Char}
    {exponent : Option (Option Char × List Char)} (h : readExponent? cs = some exponent) :
    ∀ e ∈ exponent, (∀ c ∈ e.1, c = '+' ∨ c = '-') ∧ e.2 ≠ [] ∧ e.2.all Char.isDigit = true := by
  cases cs with
  | nil => cases h; nofun
  | cons c rest =>
      simp only [readExponent?] at h
      split at h
      · next accepted =>
        cases h
        rintro e ⟨⟩
        exact ⟨sign_of_splitSign rfl, accepted.2⟩
      · cases h

theorem wellFormed_of_read? {cs : List Char} {n : Numeral} (h : read? cs = some n) :
    n.WellFormed := by
  simp only [read?] at h
  split at h
  · cases h
  · next mantissa =>
    obtain ⟨exponent, he, rfl⟩ := Option.map_eq_some_iff.1 h
    exact ⟨sign_of_splitSign rfl, List.all_takeWhile, fraction_of_splitFraction rfl, mantissa,
      exponent_of_readExponent? he⟩

private theorem append_splitFraction (cs : List Char) :
    fractionText (splitFraction cs).1 ++ (splitFraction cs).2 = cs := by
  unfold splitFraction
  split
  · rw [fractionText, List.cons_append, List.takeWhile_append_dropWhile]
  · rfl

private theorem writesExponent_of_readExponent? {cs : List Char}
    {exponent : Option (Option Char × List Char)} (h : readExponent? cs = some exponent) :
    WritesExponent exponent cs := by
  cases cs with
  | nil =>
      cases h
      exact .none
  | cons c rest =>
      simp only [readExponent?] at h
      split at h
      · next accepted =>
        cases h
        have written := WritesExponent.some accepted.1 (splitSign rest).1 (splitSign rest).2
        rwa [append_splitSign] at written
      · cases h

/-- A text is read as the numeral whose parts stand in it, and as no other. -/
theorem read?_eq_some_iff {cs : List Char} {n : Numeral} : read? cs = some n ↔ n.Spells cs := by
  refine ⟨fun h => ⟨wellFormed_of_read? h, ?_⟩, Spells.read?⟩
  simp only [read?] at h
  split at h
  · cases h
  · obtain ⟨exponent, he, rfl⟩ := Option.map_eq_some_iff.1 h
    refine ⟨_, writesExponent_of_readExponent? he, ?_⟩
    dsimp only
    rw [append_splitFraction, List.takeWhile_append_dropWhile, append_splitSign]

end FormTree.Numeral
