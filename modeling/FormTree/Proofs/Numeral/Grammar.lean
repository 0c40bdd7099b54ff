import FormTree.Proofs.Numeral.Value
import Mathlib.Computability.RegularExpressions
import Mathlib.Tactic.IntervalCases

/-!
The grammar of numerals, as a regular expression. A text matches it iff it is read as a
numeral, and what the text denotes is the value of that numeral.
-/

namespace FormTree.Numeral

open RegularExpression (char star)

/-- One of some characters. -/
def oneOf (cs : List Char) : RegularExpression Char := (cs.map char).sum

def maybe (r : RegularExpression Char) : RegularExpression Char := 1 + r

def digitPattern : RegularExpression Char := oneOf "0123456789".toList

def signPattern : RegularExpression Char := maybe (oneOf ['+', '-'])

/-- At least one digit. -/
def digitsPattern : RegularExpression Char := digitPattern * star digitPattern

/-- The form `digits[.[digits]]` or `.digits`. -/
def mantissaPattern : RegularExpression Char :=
  digitsPattern * maybe (char '.' * star digitPattern) + char '.' * digitsPattern

def exponentPattern : RegularExpression Char :=
  maybe (oneOf ['e', 'E'] * signPattern * digitsPattern)

def grammar : RegularExpression Char := signPattern * mantissaPattern * exponentPattern

/-- A sign or none, and digits. -/
def integerPattern : RegularExpression Char := signPattern * digitsPattern

/-- The text is that of a numeral with this value. -/
def Denotes (cs : List Char) (q : ℚ) : Prop := ∃ n : Numeral, n.Spells cs ∧ n.value = q

section Patterns

variable {cs : List Char} {r r' : RegularExpression Char}

theorem mem_mul_iff : cs ∈ (r * r').matches' ↔ ∃ a ∈ r.matches', ∃ b ∈ r'.matches', a ++ b = cs :=
  Language.mem_mul

theorem mem_char_iff {c : Char} : cs ∈ (char c).matches' ↔ cs = [c] := Iff.rfl

theorem mem_oneOf_iff {options : List Char} :
    cs ∈ (oneOf options).matches' ↔ ∃ c ∈ options, cs = [c] := by
  induction options with
  | nil => exact iff_of_false id (by simp)
  | cons c options ih =>
      rw [List.exists_mem_cons_iff, ← ih]
      exact Iff.rfl

theorem mem_maybe_iff : cs ∈ (maybe r).matches' ↔ cs = [] ∨ cs ∈ r.matches' := Iff.rfl

theorem mem_digitPattern_iff : cs ∈ digitPattern.matches' ↔ ∃ c, c.isDigit = true ∧ cs = [c] := by
  have digits (c : Char) : c ∈ "0123456789".toList ↔ c.isDigit = true := by
    constructor
    · exact fun h => List.all_eq_true.1 (show "0123456789".toList.all Char.isDigit = true by rfl) c h
    · intro h
      obtain ⟨low, high⟩ := Char.isDigit_iff_toNat.1 h
      rw [← Char.ofNat_toNat c]
      generalize c.toNat = k at low high
      change 48 ≤ k at low
      change k ≤ 57 at high
      interval_cases k <;> decide
  simp only [digitPattern, mem_oneOf_iff, digits]

theorem mem_star_digitPattern_iff :
    cs ∈ (star digitPattern).matches' ↔ cs.all Char.isDigit = true := by
  rw [RegularExpression.matches'_star, Language.mem_kstar]
  constructor
  · rintro ⟨parts, rfl, each⟩
    rw [List.all_flatten, List.all_eq_true]
    intro part hp
    obtain ⟨c, digit, rfl⟩ := mem_digitPattern_iff.1 (each part hp)
    rw [List.all_cons, digit]
    rfl
  · intro all
    refine ⟨cs.map fun c => [c], ?_, fun part hp => ?_⟩
    · rw [← List.flatMap_def, List.flatMap_singleton']
    · obtain ⟨c, hc, rfl⟩ := List.mem_map.1 hp
      exact mem_digitPattern_iff.2 ⟨c, List.all_eq_true.1 all c hc, rfl⟩

theorem mem_digitsPattern_iff :
    cs ∈ digitsPattern.matches' ↔ cs ≠ [] ∧ cs.all Char.isDigit = true := by
  rw [digitsPattern, mem_mul_iff]
  constructor
  · rintro ⟨a, ha, b, hb, rfl⟩
    obtain ⟨c, digit, rfl⟩ := mem_digitPattern_iff.1 ha
    rw [mem_star_digitPattern_iff] at hb
    simp [digit, hb]
  · rintro ⟨nonempty, all⟩
    cases cs with
    | nil => exact absurd rfl nonempty
    | cons c rest =>
        rw [List.all_cons, Bool.and_eq_true] at all
        exact ⟨[c], mem_digitPattern_iff.2 ⟨c, all.1, rfl⟩, rest,
          mem_star_digitPattern_iff.2 all.2, rfl⟩

theorem mem_signPattern_iff :
    cs ∈ signPattern.matches' ↔ ∃ sign : Option Char, (∀ c ∈ sign, c = '+' ∨ c = '-') ∧
      cs = sign.toList := by
  rw [signPattern, mem_maybe_iff, mem_oneOf_iff]
  constructor
  · rintro (rfl | ⟨c, hc, rfl⟩)
    · exact ⟨none, nofun, rfl⟩
    · exact ⟨some c, by simpa using hc, rfl⟩
  · rintro ⟨sign, signed, rfl⟩
    cases sign with
    | none => exact .inl rfl
    | some c => exact .inr ⟨c, by simpa using signed c rfl, rfl⟩

theorem mem_mantissaPattern_iff :
    cs ∈ mantissaPattern.matches' ↔ ∃ (whole : List Char) (fraction : Option (List Char)),
      whole.all Char.isDigit = true ∧ (fraction.getD []).all Char.isDigit = true ∧
        ¬(whole = [] ∧ fraction.getD [] = []) ∧ cs = whole ++ fractionText fraction := by
  have pattern : cs ∈ mantissaPattern.matches' ↔
      cs ∈ (digitsPattern * maybe (char '.' * star digitPattern)).matches' ∨
        cs ∈ (char '.' * digitsPattern).matches' := Iff.rfl
  rw [pattern]
  simp only [mem_mul_iff, mem_maybe_iff, mem_char_iff, mem_digitsPattern_iff,
    mem_star_digitPattern_iff]
  constructor
  · rintro (⟨whole, ⟨nonempty, digits⟩, _, rfl | ⟨_, rfl, fraction, hf, rfl⟩, rfl⟩ |
      ⟨_, rfl, fraction, ⟨nonempty, digits⟩, rfl⟩)
    · exact ⟨whole, none, digits, rfl, fun h => nonempty h.1, rfl⟩
    · exact ⟨whole, some fraction, digits, hf, fun h => nonempty h.1, rfl⟩
    · exact ⟨[], some fraction, rfl, digits, fun h => nonempty h.2, rfl⟩
  · rintro ⟨whole, fraction, digits, hf, mantissa, rfl⟩
    by_cases empty : whole = []
    · subst empty
      cases fraction with
      | none => exact absurd ⟨rfl, rfl⟩ mantissa
      | some fraction => exact .inr ⟨_, rfl, fraction, ⟨fun h => mantissa ⟨rfl, h⟩, hf⟩, rfl⟩
    · refine .inl ⟨whole, ⟨empty, digits⟩, fractionText fraction, ?_, rfl⟩
      cases fraction with
      | none => exact .inl rfl
      | some fraction => exact .inr ⟨_, rfl, fraction, hf, rfl⟩

theorem mem_exponentPattern_iff :
    cs ∈ exponentPattern.matches' ↔ ∃ exponent : Option (Option Char × List Char),
      (∀ e ∈ exponent, (∀ c ∈ e.1, c = '+' ∨ c = '-') ∧ e.2 ≠ [] ∧ e.2.all Char.isDigit = true) ∧
        WritesExponent exponent cs := by
  rw [exponentPattern, mem_maybe_iff]
  simp only [mem_mul_iff, mem_oneOf_iff, mem_signPattern_iff, mem_digitsPattern_iff]
  constructor
  · rintro (rfl | ⟨_, ⟨_, ⟨mark, letter, rfl⟩, _, ⟨sign, signed, rfl⟩, rfl⟩, digits, hd, rfl⟩)
    · exact ⟨none, nofun, .none⟩
    · refine ⟨some (sign, digits), by rintro _ ⟨⟩; exact ⟨signed, hd⟩, ?_⟩
      rw [List.append_assoc]
      exact .some (by simpa using letter) sign digits
  · rintro ⟨exponent, wf, written⟩
    cases written with
    | none => exact .inl rfl
    | @some mark letter sign digits =>
        obtain ⟨signed, hd⟩ := wf _ rfl
        exact .inr ⟨_, ⟨[mark], ⟨mark, by simpa using letter, rfl⟩, _, ⟨sign, signed, rfl⟩, rfl⟩,
          digits, hd, rfl⟩

/-- The grammar is that of the numerals. -/
theorem mem_grammar_iff : cs ∈ grammar.matches' ↔ ∃ n : Numeral, n.Spells cs := by
  rw [grammar]
  simp only [mem_mul_iff, mem_signPattern_iff, mem_mantissaPattern_iff, mem_exponentPattern_iff]
  constructor
  · rintro ⟨_, ⟨_, ⟨sign, signed, rfl⟩, _, ⟨whole, fraction, hw, hf, mantissa, rfl⟩, rfl⟩, tail,
      ⟨exponent, he, written⟩, rfl⟩
    refine ⟨⟨sign, whole, fraction, exponent⟩, ⟨signed, hw, hf, mantissa, he⟩, tail, written, ?_⟩
    simp only [List.append_assoc]
  · rintro ⟨n, wf, tail, written, rfl⟩
    refine ⟨_, ⟨_, ⟨n.sign, wf.sign, rfl⟩, _, ⟨n.whole, n.fraction, wf.whole, wf.fraction,
      wf.mantissa, rfl⟩, rfl⟩, tail, ⟨n.exponent, wf.exponent, written⟩, ?_⟩
    simp only [List.append_assoc]

/-- The integers among them are the numerals of digits alone. -/
theorem mem_integerPattern_iff :
    cs ∈ integerPattern.matches' ↔ ∃ n : Numeral, n.Spells cs ∧ n.isWhole = true := by
  rw [integerPattern]
  simp only [mem_mul_iff, mem_signPattern_iff, mem_digitsPattern_iff]
  constructor
  · rintro ⟨_, ⟨sign, signed, rfl⟩, whole, ⟨nonempty, digits⟩, rfl⟩
    refine ⟨⟨sign, whole, none, none⟩,
      ⟨⟨signed, digits, rfl, fun h => nonempty h.1, nofun⟩, [], .none, ?_⟩, rfl⟩
    simp only [fractionText, List.append_nil]
  · rintro ⟨n, ⟨wf, tail, written, rfl⟩, whole⟩
    obtain ⟨fraction, exponent⟩ := fraction_of_isWhole whole
    have mantissa := wf.mantissa
    rw [fraction] at mantissa
    rw [exponent] at written
    cases written
    refine ⟨_, ⟨n.sign, wf.sign, rfl⟩, n.whole, ⟨fun h => mantissa ⟨h, rfl⟩, wf.whole⟩, ?_⟩
    rw [fraction, fractionText, List.append_nil, List.append_nil]

theorem Spells.unique {n n' : Numeral} (h : n.Spells cs) (h' : n'.Spells cs) : n = n' :=
  Option.some_inj.1 (h.read?.symm.trans h'.read?)

theorem Spells.denotes_iff {n : Numeral} (h : n.Spells cs) {q : ℚ} : Denotes cs q ↔ n.value = q :=
  ⟨fun ⟨_, spells, value⟩ => h.unique spells ▸ value, fun value => ⟨n, h, value⟩⟩

end Patterns

end FormTree.Numeral
