import FormTree.Text.Replace

/-!
Occurrences of a pattern in a text, and what becomes of them where the pattern is
replaced. A pattern that has its first character only once cannot overlap itself,
so each occurrence is replaced where it stands.
-/

namespace FormTree.Text

variable {pattern image image' a b cs rest : List Char} {c : Char}

theorem occursIn_iff : occursIn pattern cs = true ↔ pattern <:+: cs := by
  induction cs with
  | nil => rw [occursIn, List.isEmpty_iff, List.infix_nil]
  | cons c cs ih =>
      rw [occursIn, Bool.or_eq_true, List.isPrefixOf_iff_prefix, ih, List.infix_cons_iff]

theorem toList_replace (s pattern image : String) : (replace s pattern image).toList =
    replaceChars pattern.toList image.toList 0 s.toList :=
  String.toList_ofList

/-- How often the pattern occurs. -/
def occurrences (pattern : List Char) : List Char → Nat
  | [] => 0
  | c :: rest =>
    if pattern <+: c :: rest then occurrences pattern rest + 1 else occurrences pattern rest

theorem occurrences_cons_of_not_here (h : ¬pattern <+: c :: rest) :
    occurrences pattern (c :: rest) = occurrences pattern rest :=
  if_neg h

theorem occurrences_le_cons : occurrences pattern rest ≤ occurrences pattern (c :: rest) := by
  rw [occurrences]
  split
  · exact Nat.le_succ _
  · exact Nat.le_refl _

/-- What occurs on either side of a place occurs in the whole. -/
theorem occurrences_add_le (pattern a b : List Char) :
    occurrences pattern a + occurrences pattern b ≤ occurrences pattern (a ++ b) := by
  induction a with
  | nil => exact Nat.le_of_eq (Nat.zero_add _)
  | cons c a ih =>
      rw [List.cons_append, occurrences, occurrences]
      by_cases here : pattern <+: c :: a
      · have there : pattern <+: c :: (a ++ b) := here.trans (List.prefix_append (c :: a) b)
        rw [if_pos here, if_pos there]
        omega
      · rw [if_neg here]
        split <;> omega

theorem replaceChars_skip (n : Nat) :
    replaceChars pattern image n cs = replaceChars pattern image 0 (cs.drop n) := by
  induction cs generalizing n with
  | nil => rw [List.drop_nil, replaceChars, replaceChars]
  | cons c cs ih =>
      cases n with
      | zero => rfl
      | succ n => exact ih n

theorem replaceChars_cons_of_not_here (h : ¬pattern <+: c :: rest) :
    replaceChars pattern image 0 (c :: rest) = c :: replaceChars pattern image 0 rest := by
  rw [replaceChars, if_neg]
  rwa [List.isPrefixOf_iff_prefix]

/-- The pattern begins with a character that it does not have again. -/
def Apart (pattern : List Char) : Prop := ∃ c rest, pattern = c :: rest ∧ c ∉ rest

namespace Apart

variable (apart : Apart pattern)
include apart

theorem replaceChars_append :
    replaceChars pattern image 0 (pattern ++ rest) = image ++ replaceChars pattern image 0 rest := by
  obtain ⟨c, tail, rfl, -⟩ := apart
  rw [List.cons_append, replaceChars, if_pos, replaceChars_skip, List.length_cons,
    Nat.add_sub_cancel, List.drop_left]
  rw [List.isPrefixOf_iff_prefix]
  exact List.prefix_append (c :: tail) rest

/-- Inside an occurrence no other one begins. -/
theorem occurrences_append :
    occurrences pattern (pattern ++ rest) = occurrences pattern rest + 1 := by
  obtain ⟨c, tail, rfl, once⟩ := apart
  have inside (front : List Char) (h : c ∉ front) :
      occurrences (c :: tail) (front ++ rest) = occurrences (c :: tail) rest := by
    induction front with
    | nil => rfl
    | cons d front ih =>
        rw [List.mem_cons, not_or] at h
        rw [List.cons_append, occurrences_cons_of_not_here, ih h.2]
        exact fun here => h.1 (List.cons_prefix_cons.1 here).1
  rw [List.cons_append, occurrences, if_pos, inside tail once]
  exact List.prefix_append (c :: tail) rest

/-- A text is read from the left as occurrences and characters at which none begins. -/
@[elab_as_elim]
theorem induct {motive : List Char → Prop} (nil : motive [])
    (here : ∀ rest, motive rest → motive (pattern ++ rest))
    (char : ∀ c rest, ¬pattern <+: c :: rest → motive rest → motive (c :: rest)) (cs : List Char) :
    motive cs := by
  induction n : cs.length using Nat.strongRecOn generalizing cs with
  | _ n ih =>
      subst n
      cases cs with
      | nil => exact nil
      | cons c rest =>
          by_cases h : pattern <+: c :: rest
          · obtain ⟨tail, whole⟩ := h
            obtain ⟨d, front, rfl, -⟩ := apart
            rw [← whole] at ih ⊢
            refine here tail (ih _ ?_ tail rfl)
            rw [List.length_append, List.length_cons]
            omega
          · exact char c rest h (ih _ (Nat.lt_succ_self _) rest rfl)

theorem replaceChars_of_none (none : occurrences pattern cs = 0) :
    replaceChars pattern image 0 cs = cs := by
  induction cs using apart.induct with
  | nil => rw [replaceChars]
  | here rest _ => rw [apart.occurrences_append] at none; cases none
  | char c rest h ih =>
      rw [occurrences_cons_of_not_here h] at none
      rw [replaceChars_cons_of_not_here h, ih none]

theorem occurrences_pos_iff : 0 < occurrences pattern cs ↔ pattern <:+: cs := by
  induction cs with
  | nil =>
      obtain ⟨c, tail, rfl, -⟩ := apart
      rw [List.infix_nil]
      exact iff_of_false (Nat.lt_irrefl 0) nofun
  | cons c cs ih =>
      rw [occurrences, List.infix_cons_iff, ← ih]
      split
      · next here => exact iff_of_true (Nat.succ_pos _) (.inl here)
      · next here => rw [or_iff_right here]

/-- Each occurrence gives its place to an image. -/
theorem length_replaceChars (image cs : List Char) : (replaceChars pattern image 0 cs).length +
    occurrences pattern cs * pattern.length = cs.length + occurrences pattern cs * image.length := by
  induction cs using apart.induct with
  | nil => rw [replaceChars, occurrences, Nat.zero_mul, Nat.zero_mul]
  | here rest ih =>
      rw [apart.replaceChars_append, apart.occurrences_append, Nat.succ_mul, Nat.succ_mul,
        List.length_append, List.length_append]
      omega
  | char c rest h ih =>
      rw [replaceChars_cons_of_not_here h, occurrences_cons_of_not_here h, List.length_cons,
        List.length_cons]
      omega

/-- Where the pattern occurs, the result tells what was put in its place. -/
theorem image_eq_of_replaceChars (occurs : 0 < occurrences pattern cs)
    (same : replaceChars pattern image 0 cs = replaceChars pattern image' 0 cs) :
    image = image' := by
  -- There are as many images as occurrences, so the images are equally long.
  have long : image.length = image'.length := by
    have first := apart.length_replaceChars image cs
    have second := apart.length_replaceChars image' cs
    rw [same, second] at first
    exact Nat.eq_of_mul_eq_mul_left occurs (Nat.add_left_cancel first).symm
  induction cs using apart.induct with
  | nil => cases occurs
  | here rest _ =>
      rw [apart.replaceChars_append, apart.replaceChars_append] at same
      exact (List.append_inj same long).1
  | char c rest h ih =>
      rw [occurrences_cons_of_not_here h] at occurs
      rw [replaceChars_cons_of_not_here h, replaceChars_cons_of_not_here h] at same
      exact ih occurs (List.cons.inj same).2

/-- Where no occurrence lies across a place, the two sides are replaced each by itself. -/
theorem replaceChars_append_of_occurrences
    (within : occurrences pattern (a ++ b) = occurrences pattern a + occurrences pattern b) :
    replaceChars pattern image 0 (a ++ b) =
      replaceChars pattern image 0 a ++ replaceChars pattern image 0 b := by
  induction a using apart.induct with
  | nil => rw [replaceChars]; rfl
  | here a ih =>
      rw [List.append_assoc, apart.occurrences_append, apart.occurrences_append] at within
      rw [List.append_assoc, apart.replaceChars_append, apart.replaceChars_append,
        ih (by omega), List.append_assoc]
  | char c a h ih =>
      rw [occurrences_cons_of_not_here h, List.cons_append] at within
      have across : ¬pattern <+: c :: (a ++ b) := by
        intro here
        rw [occurrences, if_pos here] at within
        have inside := occurrences_add_le pattern a b
        omega
      rw [occurrences_cons_of_not_here across] at within
      rw [List.cons_append, replaceChars_cons_of_not_here across,
        replaceChars_cons_of_not_here h, ih within, List.cons_append]

end Apart

/-- Each occurrence that is replaced takes one of its first characters out of the text. -/
theorem count_replaceChars {tail : List Char} (once : c ∉ tail) (absent : c ∉ image)
    (cs : List Char) :
    (replaceChars (c :: tail) image 0 cs).count c + occurrences (c :: tail) cs = cs.count c := by
  have apart : Apart (c :: tail) := ⟨c, tail, rfl, once⟩
  induction cs using apart.induct with
  | nil => rw [replaceChars]; rfl
  | here rest ih =>
      rw [apart.replaceChars_append, apart.occurrences_append, List.count_append,
        List.count_append, List.count_eq_zero_of_not_mem absent, List.count_cons_self,
        List.count_eq_zero_of_not_mem once]
      omega
  | char d rest h ih =>
      rw [replaceChars_cons_of_not_here h, occurrences_cons_of_not_here h, List.count_cons,
        List.count_cons]
      omega

end FormTree.Text
