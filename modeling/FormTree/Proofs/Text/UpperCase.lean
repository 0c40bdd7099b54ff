import FormTree.Proofs.Lookup
import FormTree.Text.Blank
import FormTree.Text.UpperCase

/-!
Upper case as it is put in front of words. What the mapping gives is not mapped again,
and there is no white space in it. The code points that are mapped and those that are
given are compared as sets, each set being the bits of one number.
-/

namespace FormTree.Text

variable {codes codes' : List Nat} {n m : Nat} {c d : Char}

/-- A set of code points, as the bits of a number. -/
def codeBits (codes : List Nat) : Nat := codes.foldr (fun n bits => bits ||| 1 <<< n) 0

theorem testBit_codeBits : (codeBits codes).testBit n = decide (n ∈ codes) := by
  induction codes with
  | nil => exact Nat.zero_testBit n
  | cons m codes ih =>
      have here : (codeBits (m :: codes)).testBit n = (decide (n ∈ codes) || decide (m = n)) := by
        rw [← ih, ← Nat.testBit_two_pow, ← Nat.one_shiftLeft, ← Nat.testBit_or]
        rfl
      rw [here, Bool.eq_iff_iff, Bool.or_eq_true, decide_eq_true_iff, decide_eq_true_iff,
        decide_eq_true_iff, List.mem_cons, or_comm, eq_comm]

theorem not_mem_of_codeBits (apart : codeBits codes &&& codeBits codes' = 0) (hn : n ∈ codes) :
    n ∉ codes' := by
  intro hn'
  have bit : (codeBits codes &&& codeBits codes').testBit n = true := by
    rw [Nat.testBit_and, testBit_codeBits, testBit_codeBits, decide_eq_true hn, decide_eq_true hn']
    rfl
  rw [apart, Nat.zero_testBit] at bit
  cases bit

def blankCodes : List Nat :=
  blankRanges.flatMap fun (first, last) => List.range' first (last - first + 1)

/-- The code points that the mapping takes to others. -/
def mappedCodes : List Nat :=
  upperExpansions.map Prod.fst ++
    upperRuns.flatMap fun (first, last, step, _) =>
      List.range' first ((last - first) / step + 1) step

/-- The code points that the mapping takes others to. -/
def imageCodes : List Nat :=
  upperExpansions.flatMap Prod.snd ++
    upperRuns.flatMap fun (first, last, step, image) =>
      List.range' image ((last - first) / step + 1) step

private theorem images_unmapped : codeBits imageCodes &&& codeBits mappedCodes = 0 := by
  decide +kernel

private theorem images_plain :
    codeBits imageCodes &&& codeBits ('_'.toNat :: '-'.toNat :: blankCodes) = 0 := by
  decide +kernel

private theorem images_valid : ∀ n ∈ imageCodes, n.isValidChar := by
  decide +kernel

private theorem images_nonempty : ∀ e ∈ upperExpansions, e.2 ≠ [] := by
  decide

theorem mem_blankCodes (h : isBlank c = true) : c.toNat ∈ blankCodes := by
  obtain ⟨⟨first, last⟩, hr, within⟩ := List.any_eq_true.1 h
  rw [Bool.and_eq_true, decide_eq_true_iff, decide_eq_true_iff] at within
  refine List.mem_flatMap.2 ⟨(first, last), hr, List.mem_range'_1.2 ⟨within.1, ?_⟩⟩
  omega

private theorem mem_codes_of_run (h : upperInRuns? n = some m) :
    n ∈ mappedCodes ∧ m ∈ imageCodes := by
  obtain ⟨⟨first, last, step, image⟩, hr, found⟩ := List.exists_of_findSome?_eq_some h
  dsimp only at found
  split at found
  · next within =>
    obtain ⟨low, high, stepped⟩ := within
    cases found
    -- The code point is so many whole steps from the first one, and its image from the image.
    have steps : step * ((n - first) / step) = n - first :=
      Nat.mul_div_cancel' (Nat.dvd_of_mod_eq_zero stepped)
    have few : (n - first) / step < (last - first) / step + 1 :=
      Nat.lt_succ_of_le (Nat.div_le_div_right (Nat.sub_le_sub_right high first))
    have place : n = first + step * ((n - first) / step) := by omega
    refine ⟨List.mem_append_right _ (List.mem_flatMap.2 ⟨_, hr, ?_⟩),
      List.mem_append_right _ (List.mem_flatMap.2 ⟨_, hr, ?_⟩)⟩
    · exact List.mem_range'.2 ⟨_, few, place⟩
    · exact List.mem_range'.2 ⟨_, few, by rw [steps]⟩
  · cases found

/-- A character stays, or is mapped to characters among the images. -/
theorem upperCase_cases (c : Char) : upperCase c = [c] ∨
    ∃ image, c.toNat ∈ mappedCodes ∧ image ≠ [] ∧ (∀ n ∈ image, n ∈ imageCodes) ∧
      upperCase c = image.map Char.ofNat := by
  rw [upperCase]
  split
  · next image found =>
    have listed := mem_of_lookup found
    refine .inr ⟨image, List.mem_append_left _ (List.mem_map_of_mem (f := Prod.fst) listed),
      images_nonempty _ listed, fun n hn => ?_, rfl⟩
    exact List.mem_append_left _ (List.mem_flatMap.2 ⟨_, listed, hn⟩)
  · cases run : upperInRuns? c.toNat with
    | none => exact .inl rfl
    | some m =>
        obtain ⟨mapped, given⟩ := mem_codes_of_run run
        exact .inr ⟨[m], mapped, nofun, List.forall_mem_singleton.2 given, rfl⟩

theorem upperCase_ne_nil (c : Char) : upperCase c ≠ [] := by
  rcases upperCase_cases c with same | ⟨image, -, nonempty, -, mapped⟩
  · rw [same]
    nofun
  · rw [mapped]
    exact fun h => nonempty (List.map_eq_nil_iff.1 h)

/-- A character of an upper case is the character itself, or has its code among the images. -/
theorem eq_or_mem_imageCodes (h : d ∈ upperCase c) :
    (d = c ∧ upperCase c = [c]) ∨ d.toNat ∈ imageCodes := by
  rcases upperCase_cases c with same | ⟨image, -, -, given, mapped⟩
  · rw [same] at h
    exact .inl ⟨List.mem_singleton.1 h, same⟩
  · rw [mapped] at h
    obtain ⟨n, hn, rfl⟩ := List.mem_map.1 h
    have code : (Char.ofNat n).toNat = n := by
      rw [Char.ofNat, dif_pos (images_valid n (given n hn))]
      rfl
    exact .inr (code.symm ▸ given n hn)

/-- Upper case is its own upper case. -/
theorem upperCase_of_mem (h : d ∈ upperCase c) : upperCase d = [d] := by
  rcases eq_or_mem_imageCodes h with ⟨rfl, same⟩ | given
  · exact same
  · rcases upperCase_cases d with same | ⟨-, mapped, -⟩
    · exact same
    · exact absurd mapped (not_mem_of_codeBits images_unmapped given)

/-- What is not in a character already is no white space, and no separator of names. -/
theorem plain_of_mem_upperCase (h : d ∈ upperCase c) :
    d = c ∨ (isBlank d = false ∧ d ≠ '_' ∧ d ≠ '-') := by
  refine (eq_or_mem_imageCodes h).imp And.left fun given => ?_
  have plain := not_mem_of_codeBits images_plain given
  rw [List.mem_cons, List.mem_cons, not_or, not_or] at plain
  refine ⟨?_, fun h => plain.1 (h ▸ rfl), fun h => plain.2.1 (h ▸ rfl)⟩
  exact Bool.eq_false_iff.2 fun blank => plain.2.2 (mem_blankCodes blank)

end FormTree.Text
