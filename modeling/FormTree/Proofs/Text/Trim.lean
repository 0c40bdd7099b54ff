import FormTree.Text.Blank
import Mathlib.Data.List.TakeWhile

/-!
A text without the white space at its ends.
-/

namespace FormTree.Text

variable {cs core : List Char}

/-- White space stands around the core of a text, but not at the ends of the core itself. -/
structure Trims (cs core : List Char) : Prop where
  parts : ∃ front back, cs = front ++ (core ++ back) ∧
    (∀ c ∈ front, isBlank c = true) ∧ ∀ c ∈ back, isBlank c = true
  first : ∀ c ∈ core.head?, isBlank c = false
  last : ∀ c ∈ core.getLast?, isBlank c = false

private theorem dropWhile_blank {front rest : List Char} (blank : ∀ c ∈ front, isBlank c = true)
    (stop : ∀ c ∈ rest.head?, isBlank c = false) : (front ++ rest).dropWhile isBlank = rest := by
  rw [List.dropWhile_append_of_pos blank]
  cases rest with
  | nil => rfl
  | cons c rest => rw [List.dropWhile_cons, stop c rfl, if_neg Bool.false_ne_true]

private theorem not_isBlank_of_head? {c : Char} (h : c ∈ (cs.dropWhile isBlank).head?) :
    isBlank c = false := by
  have stop := List.head?_dropWhile_not isBlank cs
  rw [Option.mem_def.1 h] at stop
  exact stop

theorem Trims.trimChars_eq (h : Trims cs core) : trimChars cs = core := by
  obtain ⟨⟨front, back, rfl, blankFront, blankBack⟩, first, last⟩ := h
  rcases List.eq_nil_or_concat core with rfl | ⟨init, c, rfl⟩
  · have all : ∀ c ∈ front ++ ([] ++ back), isBlank c = true :=
      List.forall_mem_append.2 ⟨blankFront, blankBack⟩
    rw [trimChars, List.dropWhile_eq_nil_iff.2 all]
    rfl
  · rw [List.concat_eq_append] at first last ⊢
    have rest : ∀ d ∈ (init ++ [c] ++ back).head?, isBlank d = false := by
      rwa [List.head?_append, Option.or_of_isSome (by simp)]
    rw [trimChars, dropWhile_blank blankFront rest, List.reverse_append, dropWhile_blank,
      List.reverse_reverse]
    · exact fun d hd => blankBack d (List.mem_reverse.1 hd)
    · rwa [List.head?_reverse]

theorem trims_trimChars (cs : List Char) : Trims cs (trimChars cs) := by
  let rest := cs.dropWhile isBlank
  have whole : trimChars cs ++ (rest.reverse.takeWhile isBlank).reverse = rest := by
    rw [trimChars, ← List.reverse_append, List.takeWhile_append_dropWhile, List.reverse_reverse]
  refine ⟨⟨cs.takeWhile isBlank, (rest.reverse.takeWhile isBlank).reverse, ?_, ?_, ?_⟩, ?_, ?_⟩
  · rw [whole, List.takeWhile_append_dropWhile]
  · exact fun c hc => List.mem_takeWhile_imp hc
  · exact fun c hc => List.mem_takeWhile_imp (List.mem_reverse.1 hc)
  · intro c hc
    have first : c ∈ rest.head? := by
      rw [← whole, List.head?_append, Option.mem_def.1 hc]
      rfl
    exact not_isBlank_of_head? first
  · intro c hc
    rw [trimChars, List.getLast?_reverse] at hc
    exact not_isBlank_of_head? hc

theorem trims_iff : Trims cs core ↔ trimChars cs = core :=
  ⟨Trims.trimChars_eq, fun h => h ▸ trims_trimChars cs⟩

theorem trimChars_eq_self (h : ∀ c ∈ cs, isBlank c = false) : trimChars cs = cs :=
  trims_iff.1 ⟨⟨[], [], (List.append_nil cs).symm, nofun, nofun⟩,
    fun c hc => h c (List.mem_of_mem_head? hc), fun c hc => h c (List.mem_of_getLast? hc)⟩

theorem trimChars_ne_nil_iff : trimChars cs ≠ [] ↔ ∃ c ∈ cs, isBlank c = false := by
  rw [← not_iff_not, not_not, ← trims_iff]
  constructor
  · rintro ⟨⟨front, back, rfl, blankFront, blankBack⟩, -, -⟩ ⟨c, hc, shown⟩
    rcases List.mem_append.1 hc with hc | hc
    · rw [blankFront c hc] at shown
      cases shown
    · rw [List.nil_append] at hc
      rw [blankBack c hc] at shown
      cases shown
  · intro none
    refine ⟨⟨cs, [], by simp, fun c hc => ?_, nofun⟩, nofun, nofun⟩
    exact Bool.of_not_eq_false fun shown => none ⟨c, hc, shown⟩

end FormTree.Text
