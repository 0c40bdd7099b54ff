import FormTree.Json.Pointer

/-!
Pointers as text. The reference tokens are read back from the text, so different
token lists make different pointers, and a number is read as the index it denotes.
-/

namespace FormTree.Pointer

theorem escapeChars_tilde (cs : List Char) :
    escapeChars ('~' :: cs) = '~' :: '0' :: escapeChars cs := rfl

theorem escapeChars_slash (cs : List Char) :
    escapeChars ('/' :: cs) = '~' :: '1' :: escapeChars cs := rfl

theorem escapeChars_char {c : Char} {cs : List Char} (noTilde : c ≠ '~') (noSlash : c ≠ '/') :
    escapeChars (c :: cs) = c :: escapeChars cs := by
  rw [escapeChars, List.flatMap_cons, if_neg noTilde, if_neg noSlash]
  rfl

private theorem unescapeChars_cons {c : Char} (h : c ≠ '~') (rest : List Char) :
    unescapeChars (c :: rest) = c :: unescapeChars rest := by
  rw [unescapeChars]
  · rintro rest' rfl
    exact absurd rfl h
  · rintro rest' rfl
    exact absurd rfl h

theorem unescapeChars_escapeChars (cs : List Char) : unescapeChars (escapeChars cs) = cs := by
  induction cs with
  | nil => rfl
  | cons c cs ih =>
      by_cases tilde : c = '~'
      · rw [tilde, escapeChars_tilde, unescapeChars, ih]
      · by_cases slash : c = '/'
        · rw [slash, escapeChars_slash, unescapeChars, ih]
        · rw [escapeChars_char tilde slash, unescapeChars_cons tilde, ih]

theorem slash_not_mem_escapeChars (cs : List Char) : '/' ∉ escapeChars cs := by
  intro h
  obtain ⟨c, -, hc⟩ := List.mem_flatMap.1 h
  split at hc
  · simp at hc
  · split at hc
    · simp at hc
    · next hslash => exact hslash (List.mem_singleton.1 hc).symm

private theorem pieces_char {c : Char} (h : c ≠ '/') (piece cs : List Char) :
    pieces piece (c :: cs) = pieces (c :: piece) cs := by
  rw [pieces]
  exact h

theorem pieces_append (piece cs : List Char) (h : '/' ∉ cs) (rest : List Char) :
    pieces piece (cs ++ rest) = pieces (cs.reverse ++ piece) rest := by
  induction cs generalizing piece with
  | nil => rfl
  | cons c cs ih =>
      rw [List.mem_cons, not_or] at h
      rw [List.cons_append, pieces_char (Ne.symm h.1), ih (c :: piece) h.2, List.reverse_cons,
        List.append_assoc, List.singleton_append]

/-- The pieces before a slash, and those after it. -/
theorem pieces_append_slash (piece before after : List Char) :
    pieces piece (before ++ '/' :: after) = pieces piece before ++ pieces [] after := by
  induction before generalizing piece with
  | nil => rfl
  | cons c before ih =>
      by_cases slash : c = '/'
      · rw [slash, List.cons_append, pieces, ih, pieces, List.cons_append]
      · rw [List.cons_append, pieces_char slash, ih, pieces_char slash]

/-- A piece of a text, from one slash or end to the next. -/
structure Piece (cs piece : List Char) : Prop where
  whole : '/' ∉ piece
  parts : ∃ before after, cs = before ++ (piece ++ after) ∧
    (∀ c ∈ before.getLast?, c = '/') ∧ ∀ c ∈ after.head?, c = '/'

private theorem Piece.after_slash {front cs piece : List Char} (h : Piece cs piece) :
    Piece (front ++ '/' :: cs) piece := by
  obtain ⟨whole, before, after, rfl, ends, begins⟩ := h
  refine ⟨whole, front ++ '/' :: before, after, by simp, ?_, begins⟩
  rw [List.getLast?_append, List.getLast?_cons]
  cases last : before.getLast? with
  | none => simp
  | some c => simpa using ends c last

private theorem piece_of_mem_pieces {cs piece found : List Char} (unbroken : '/' ∉ piece)
    (h : found ∈ pieces piece cs) : Piece (piece.reverse ++ cs) found := by
  induction cs generalizing piece with
  | nil =>
      obtain rfl := List.mem_singleton.1 h
      exact ⟨by simpa using unbroken, [], [], rfl, nofun, nofun⟩
  | cons c cs ih =>
      by_cases slash : c = '/'
      · subst slash
        rw [pieces] at h
        rcases List.mem_cons.1 h with rfl | h
        · exact ⟨by simpa using unbroken, [], '/' :: cs, rfl, nofun, by simp⟩
        · exact (ih List.not_mem_nil h).after_slash
      · rw [pieces_char slash] at h
        have next := ih (by simp [unbroken, Ne.symm slash]) h
        rwa [List.reverse_cons, List.append_assoc, List.singleton_append] at next

private theorem mem_pieces_append {piece after : List Char} (whole : '/' ∉ piece)
    (begins : ∀ c ∈ after.head?, c = '/') : piece ∈ pieces [] (piece ++ after) := by
  rw [pieces_append _ _ whole, List.append_nil]
  cases after with
  | nil => simp [pieces]
  | cons c after =>
      rw [begins c rfl, pieces, List.reverse_reverse]
      exact List.mem_cons_self

theorem mem_pieces_iff {cs piece : List Char} : piece ∈ pieces [] cs ↔ Piece cs piece := by
  refine ⟨piece_of_mem_pieces List.not_mem_nil, ?_⟩
  rintro ⟨whole, before, after, rfl, ends, begins⟩
  rcases List.eq_nil_or_concat before with rfl | ⟨front, c, rfl⟩
  · exact mem_pieces_append whole begins
  · rw [List.concat_eq_append, List.getLast?_concat] at ends
    rw [List.concat_eq_append, ends c rfl, List.append_assoc, List.singleton_append,
      pieces_append_slash]
    exact List.mem_append_right _ (mem_pieces_append whole begins)

theorem join_nil : join [] = "" := by
  rw [join, List.map_nil, String.join_nil]

theorem toList_join_cons (token : String) (tokens : List String) :
    (join (token :: tokens)).toList =
      '/' :: (escapeChars token.toList ++ (join tokens).toList) := by
  rw [join, List.map_cons, String.join_cons]
  simp [escape, join]

theorem join_concat (tokens : List String) (token : String) :
    join (tokens ++ [token]) = join tokens ++ "/" ++ escape token := by
  rw [join, join, List.map_append, String.join_append]
  simp [String.append_assoc]

/-- The pieces of a pointer are its escaped tokens, after one without characters. -/
theorem pieces_join (tokens : List String) (piece : List Char) :
    pieces piece (join tokens).toList =
      piece.reverse :: tokens.map fun t => escapeChars t.toList := by
  induction tokens generalizing piece with
  | nil => rw [join_nil]; rfl
  | cons t tokens ih =>
      rw [toList_join_cons, pieces, pieces_append _ _ (slash_not_mem_escapeChars _), ih]
      simp

theorem tokens?_join (tokens : List String) : tokens? (join tokens) = some tokens := by
  rw [tokens?, pieces_join, List.reverse_nil]
  simp only [List.map_map, Option.some_inj]
  refine List.map_id'' ?_ tokens
  intro t
  rw [Function.comp_apply, unescapeChars_escapeChars, String.ofList_toList]

theorem join_injective {tokens tokens' : List String} (h : join tokens = join tokens') :
    tokens = tokens' := by
  have read := tokens?_join tokens
  rw [h, tokens?_join] at read
  exact (Option.some.inj read).symm

private theorem pieces_cons (piece cs : List Char) :
    ∃ more rest, pieces piece cs = (piece.reverse ++ more) :: rest := by
  induction cs generalizing piece with
  | nil => exact ⟨[], [], by rw [List.append_nil]; rfl⟩
  | cons c cs ih =>
      by_cases hc : c = '/'
      · subst hc
        exact ⟨[], pieces [] cs, by rw [List.append_nil]; rfl⟩
      · obtain ⟨more, rest, h⟩ := ih (c :: piece)
        refine ⟨c :: more, rest, ?_⟩
        rw [pieces_char hc, h, List.reverse_cons, List.append_assoc, List.singleton_append]

/-- The mark of a fragment is no part of a pointer. -/
theorem tokens?_fragment {pointer : String} {rest : List Char}
    (h : pointer.toList = '#' :: rest) : tokens? pointer = none := by
  obtain ⟨more, rest', hp⟩ := pieces_cons ['#'] rest
  have first : pieces [] pointer.toList = ('#' :: more) :: rest' := by
    rw [h, pieces, hp]
    · rfl
    · decide
  rw [tokens?, first]

private theorem toList_toString (n : Nat) : (toString n).toList = Nat.toDigits 10 n :=
  Nat.toList_repr

theorem isDigit_of_mem_toString {n : Nat} {c : Char} (h : c ∈ (toString n).toList) :
    c.isDigit = true :=
  Nat.isDigit_of_mem_toDigits (by decide) (by decide) (toList_toString n ▸ h)

theorem toString_toList_ne_nil (n : Nat) : (toString n).toList ≠ [] := by
  rw [toList_toString]
  exact Nat.toDigits_ne_nil

/-- A number above zero is written without leading zeros. -/
private theorem head_toDigits {n : Nat} (h : 0 < n) : (Nat.toDigits 10 n).head? ≠ some '0' := by
  induction n using Nat.strongRecOn with
  | _ n ih =>
      rcases Nat.lt_or_ge n 10 with hlt | hge
      · rw [Nat.toDigits_of_lt_base hlt]
        simpa using Nat.ne_of_gt h
      · have front := ih (n / 10) (by omega) (by omega)
        rw [Nat.toDigits_of_base_le (by decide) hge]
        cases hd : Nat.toDigits 10 (n / 10) with
        | nil => exact absurd hd Nat.toDigits_ne_nil
        | cons c rest => rw [hd] at front; exact front

theorem index?_toString (n : Nat) : index? (toString n) = some n := by
  have value : Nat.ofDigitChars 10 (Nat.toDigits 10 n) 0 = n := Nat.ofDigitChars_ten_toDigits
  have digits : (Nat.toDigits 10 n).all Char.isDigit = true :=
    List.all_eq_true.2 fun c hc => Nat.isDigit_of_mem_toDigits (by decide) (by decide) hc
  rw [index?, toList_toString]
  rcases Nat.eq_zero_or_pos n with rfl | hn
  · rw [Nat.toDigits_zero]
    rfl
  · have head := head_toDigits hn
    cases hd : Nat.toDigits 10 n with
    | nil => exact absurd hd Nat.toDigits_ne_nil
    | cons c rest =>
        rw [hd] at value digits head
        have hc : c ≠ '0' := fun hc => head (congrArg some hc)
        split
        · next h => cases h; exact absurd rfl hc
        · next h =>
          cases h
          rw [if_pos ⟨hc, digits⟩, value]
        · next h => cases h

theorem toString_injective {m n : Nat} (h : toString m = toString n) : m = n := by
  have read := index?_toString m
  rw [h, index?_toString] at read
  exact (Option.some.inj read).symm

end FormTree.Pointer
