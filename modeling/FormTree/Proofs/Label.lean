import FormTree.Label
import FormTree.Proofs.Text.UpperCase

/-!
Labels that stay. A label has the words of its machine name at their places, each with
the first character in upper case, and so it is its own label. Nothing is needed of the
mapping to upper case but that it gives a character, leaves the first one that it gives
alone, and makes no separators.
-/

namespace FormTree.Label

/-- White space, or a separator of machine names. -/
def Separates (c : Char) : Prop := Text.isBlank c = true ∨ c = '_' ∨ c = '-'

/-- What is needed of a mapping to upper case. -/
structure Capitalizes (upper : Char → List Char) : Prop where
  nonempty : ∀ c, upper c ≠ []
  first : ∀ c d rest, upper c = d :: rest → upper d = [d]
  plain : ∀ c, ¬Separates c → ∀ d ∈ upper c, ¬Separates d

/-- The display label of a machine name under a mapping to upper case. -/
def humanizeBy (upper : Char → List Char) (name : String) : String :=
  String.ofList (humanizeChars upper true name.toList)

/-- The stretches of a text between white space, empty where two of them meet. -/
def words (cs : List Char) : List (List Char) := cs.splitOnP Text.isBlank

def capitalized (upper : Char → List Char) : List Char → List Char
  | [] => []
  | c :: rest => upper c ++ rest

/-- The label says what the name says when its separators are read as spaces. -/
structure Labels (upper : Char → List Char) (name label : String) : Prop where
  unseparated : '_' ∉ label.toList ∧ '-' ∉ label.toList
  blanks : label.toList.filter Text.isBlank = (name.toList.map spaced).filter Text.isBlank
  words : words label.toList = (words (name.toList.map spaced)).map (capitalized upper)
  /-- A stretch is a word in the label iff it is one in the name. -/
  places : (Label.words label.toList).map List.isEmpty =
    (Label.words (name.toList.map spaced)).map List.isEmpty

variable {upper : Char → List Char} {start : Bool} {c d : Char} {cs front rest word : List Char}
  {others : List (List Char)}

/-! ### Separators -/

theorem isBlank_spaced_iff : Text.isBlank (spaced c) = true ↔ Separates c := by
  rw [spaced, Separates]
  split
  · next separator => exact iff_of_true rfl (.inr separator)
  · next other => rw [or_iff_left other]

theorem spaced_of_plain (plain : ¬Separates c) : spaced c = c :=
  if_neg fun separator => plain (.inr separator)

theorem not_isBlank_of_plain (plain : ¬Separates c) : Text.isBlank c = false :=
  Bool.eq_false_iff.2 fun blank => plain (.inl blank)

theorem ne_of_plain (plain : ¬Separates c) : c ≠ '_' ∧ c ≠ '-' :=
  not_or.1 fun separator => plain (.inr separator)

theorem spaced_ne (c : Char) : spaced c ≠ '_' ∧ spaced c ≠ '-' := by
  rw [spaced]
  split
  · decide
  · next other => exact not_or.1 other

theorem spaced_spaced (c : Char) : spaced (spaced c) = spaced c :=
  if_neg (not_or.2 (spaced_ne c))

theorem separates_spaced (separator : Separates c) : Separates (spaced c) :=
  .inl (isBlank_spaced_iff.2 separator)

/-! ### One character at a time -/

theorem humanizeChars_separator (separator : Separates c) :
    humanizeChars upper start (c :: rest) = spaced c :: humanizeChars upper true rest := by
  rw [humanizeChars]
  exact if_pos (isBlank_spaced_iff.2 separator)

theorem humanizeChars_first (plain : ¬Separates c) :
    humanizeChars upper true (c :: rest) = upper c ++ humanizeChars upper false rest := by
  rw [humanizeChars, spaced_of_plain plain]
  exact if_neg (Bool.eq_false_iff.1 (not_isBlank_of_plain plain))

theorem humanizeChars_inner (plain : ¬Separates c) :
    humanizeChars upper false (c :: rest) = c :: humanizeChars upper false rest := by
  rw [humanizeChars, spaced_of_plain plain]
  exact if_neg (Bool.eq_false_iff.1 (not_isBlank_of_plain plain))

/-- A name is read as separators, first characters of words and characters inside words. -/
@[elab_as_elim]
theorem nameInduct {motive : Bool → List Char → Prop} (nil : ∀ start, motive start [])
    (separator : ∀ start c rest, Separates c → motive true rest → motive start (c :: rest))
    (first : ∀ c rest, ¬Separates c → motive false rest → motive true (c :: rest))
    (inner : ∀ c rest, ¬Separates c → motive false rest → motive false (c :: rest))
    (start : Bool) (cs : List Char) : motive start cs := by
  induction cs generalizing start with
  | nil => exact nil start
  | cons c rest ih =>
      by_cases separates : Separates c
      · exact separator start c rest separates (ih true)
      · cases start with
        | true => exact first c rest separates (ih false)
        | false => exact inner c rest separates (ih false)

theorem humanizeChars_append_inner (plain : ∀ d ∈ front, ¬Separates d) :
    humanizeChars upper false (front ++ rest) = front ++ humanizeChars upper false rest := by
  induction front with
  | nil => rfl
  | cons d front ih =>
      rw [List.forall_mem_cons] at plain
      rw [List.cons_append, humanizeChars_inner plain.1, ih plain.2, List.cons_append]

/-! ### Words -/

theorem exists_words (cs : List Char) : ∃ word others, words cs = word :: others :=
  List.exists_cons_of_ne_nil (List.splitOnP_ne_nil _ cs)

theorem words_blank (blank : Text.isBlank c = true) : words (c :: cs) = [] :: words cs := by
  rw [words, List.splitOnP_cons_eq_if_modifyHead, if_pos blank, words]

theorem words_append (plain : ∀ d ∈ front, Text.isBlank d = false)
    (split : words cs = word :: others) : words (front ++ cs) = (front ++ word) :: others := by
  induction front with
  | nil => exact split
  | cons d front ih =>
      rw [List.forall_mem_cons] at plain
      have inside := ih plain.2
      rw [words] at inside
      rw [words, List.cons_append, List.splitOnP_cons_eq_if_modifyHead,
        if_neg (Bool.eq_false_iff.1 plain.1), inside]
      rfl

/-- A character that is not white space begins the first word. -/
theorem exists_words_of_cons (plain : Text.isBlank c = false)
    (split : words (c :: cs) = word :: others) :
    ∃ next, word = c :: next ∧ words cs = next :: others := by
  obtain ⟨next, after, rest⟩ := exists_words cs
  have whole : words ([c] ++ cs) = ([c] ++ next) :: after :=
    words_append (List.forall_mem_singleton.2 plain) rest
  obtain ⟨rfl, rfl⟩ := List.cons.inj (whole.symm.trans split)
  exact ⟨next, rfl, rest⟩

section Capitalizes

variable (capitalizes : Capitalizes upper)
include capitalizes

theorem humanizeChars_humanizeChars (start : Bool) (cs : List Char) :
    humanizeChars upper start (humanizeChars upper start cs) = humanizeChars upper start cs := by
  induction start, cs using nameInduct with
  | nil start => rfl
  | separator start c rest separates ih =>
      rw [humanizeChars_separator separates, humanizeChars_separator (separates_spaced separates),
        spaced_spaced, ih]
  | first c rest plain ih =>
      -- All that the character becomes stays, the first of it as the first of the word.
      obtain ⟨d, inside, image⟩ := List.exists_cons_of_ne_nil (capitalizes.nonempty c)
      have stays := capitalizes.plain c plain
      rw [image, List.forall_mem_cons] at stays
      rw [humanizeChars_first plain, image, List.cons_append, humanizeChars_first stays.1,
        capitalizes.first c d inside image, humanizeChars_append_inner stays.2, ih]
      rfl
  | inner c rest plain ih => rw [humanizeChars_inner plain, humanizeChars_inner plain, ih]

theorem unseparated_humanizeChars (start : Bool) (cs : List Char) :
    ∀ d ∈ humanizeChars upper start cs, d ≠ '_' ∧ d ≠ '-' := by
  induction start, cs using nameInduct with
  | nil start => nofun
  | separator start c rest separates ih =>
      rw [humanizeChars_separator separates]
      exact List.forall_mem_cons.2 ⟨spaced_ne c, ih⟩
  | first c rest plain ih =>
      rw [humanizeChars_first plain]
      exact List.forall_mem_append.2
        ⟨fun d hd => ne_of_plain (capitalizes.plain c plain d hd), ih⟩
  | inner c rest plain ih =>
      rw [humanizeChars_inner plain]
      exact List.forall_mem_cons.2 ⟨ne_of_plain plain, ih⟩

theorem blanks_humanizeChars (start : Bool) (cs : List Char) :
    (humanizeChars upper start cs).filter Text.isBlank = (cs.map spaced).filter Text.isBlank := by
  induction start, cs using nameInduct with
  | nil start => rfl
  | separator start c rest separates ih =>
      rw [humanizeChars_separator separates, List.map_cons, List.filter_cons, List.filter_cons, ih]
  | first c rest plain ih =>
      have none : (upper c).filter Text.isBlank = [] := List.filter_eq_nil_iff.2 fun d hd =>
        Bool.eq_false_iff.1 (not_isBlank_of_plain (capitalizes.plain c plain d hd))
      rw [humanizeChars_first plain, List.filter_append, none, List.nil_append, ih, List.map_cons,
        spaced_of_plain plain, List.filter_cons_of_neg]
      exact Bool.eq_false_iff.1 (not_isBlank_of_plain plain)
  | inner c rest plain ih =>
      rw [humanizeChars_inner plain, List.map_cons, spaced_of_plain plain, List.filter_cons,
        List.filter_cons, ih]

/-- All words are capitalized but the one that has begun already. -/
theorem words_humanizeChars (start : Bool) (cs : List Char) :
    ∀ word others, words (cs.map spaced) = word :: others →
      words (humanizeChars upper start cs) =
        (if start then capitalized upper word else word) :: others.map (capitalized upper) := by
  induction start, cs using nameInduct with
  | nil start =>
      intro word others split
      obtain ⟨rfl, rfl⟩ := List.cons.inj split
      cases start <;> rfl
  | separator start c rest separates ih =>
      intro word others split
      have blank := isBlank_spaced_iff.2 separates
      obtain ⟨next, after, split'⟩ := exists_words (rest.map spaced)
      rw [List.map_cons, words_blank blank, split'] at split
      obtain ⟨rfl, rfl⟩ := List.cons.inj split
      rw [humanizeChars_separator separates, words_blank blank, ih next after split', if_pos rfl]
      cases start <;> rfl
  | first c rest plain ih =>
      intro word others split
      rw [List.map_cons, spaced_of_plain plain] at split
      obtain ⟨next, rfl, after⟩ := exists_words_of_cons (not_isBlank_of_plain plain) split
      rw [humanizeChars_first plain]
      exact words_append (fun d hd => not_isBlank_of_plain (capitalizes.plain c plain d hd))
        (ih next others after)
  | inner c rest plain ih =>
      intro word others split
      rw [List.map_cons, spaced_of_plain plain] at split
      obtain ⟨next, rfl, after⟩ := exists_words_of_cons (not_isBlank_of_plain plain) split
      rw [humanizeChars_inner plain]
      exact words_append (List.forall_mem_singleton.2 (not_isBlank_of_plain plain))
        (ih next others after)

theorem isEmpty_capitalized (word : List Char) : (capitalized upper word).isEmpty = word.isEmpty := by
  cases word with
  | nil => rfl
  | cons c rest =>
      obtain ⟨d, inside, image⟩ := List.exists_cons_of_ne_nil (capitalizes.nonempty c)
      rw [capitalized, image]
      rfl

theorem labels_humanizeBy (name : String) : Labels upper name (humanizeBy upper name) := by
  have split : words (humanizeChars upper true name.toList) =
      (words (name.toList.map spaced)).map (capitalized upper) := by
    obtain ⟨word, others, split⟩ := exists_words (name.toList.map spaced)
    rw [words_humanizeChars capitalizes true name.toList word others split, split, if_pos rfl,
      List.map_cons]
  have separated := unseparated_humanizeChars capitalizes true name.toList
  have label : (humanizeBy upper name).toList = humanizeChars upper true name.toList :=
    String.toList_ofList
  refine ⟨?_, ?_, ?_, ?_⟩
  · rw [label]
    exact ⟨fun h => (separated _ h).1 rfl, fun h => (separated _ h).2 rfl⟩
  · rw [label, blanks_humanizeChars capitalizes]
  · rw [label, split]
  · rw [label, split, List.map_map]
    exact List.map_congr_left fun word _ => isEmpty_capitalized capitalizes word

theorem humanizeBy_humanizeBy (name : String) :
    humanizeBy upper (humanizeBy upper name) = humanizeBy upper name := by
  rw [humanizeBy, humanizeBy, String.toList_ofList, humanizeChars_humanizeChars capitalizes]

end Capitalizes

theorem upperCase_capitalizes : Capitalizes Text.upperCase where
  nonempty := Text.upperCase_ne_nil
  first c d rest image := Text.upperCase_of_mem (c := c) (image ▸ List.mem_cons_self)
  plain c plain d hd := by
    rcases Text.plain_of_mem_upperCase hd with rfl | ⟨noBlank, noLine, noDash⟩
    · exact plain
    · rintro (blank | line | dash)
      · exact Bool.eq_false_iff.1 noBlank blank
      · exact noLine line
      · exact noDash dash

/-- The label of a label is the label itself, and it says what the machine name says. This is so
for every mapping that capitalizes. -/
theorem humanize_humanize :
    (∀ name, humanize (humanize name) = humanize name ∧
      Labels Text.upperCase name (humanize name)) ∧
    ∀ upper, Capitalizes upper → ∀ name,
      humanizeBy upper (humanizeBy upper name) = humanizeBy upper name ∧
        Labels upper name (humanizeBy upper name) := by
  have all (upper : Char → List Char) (capitalizes : Capitalizes upper) (name : String) :
      humanizeBy upper (humanizeBy upper name) = humanizeBy upper name ∧
        Labels upper name (humanizeBy upper name) :=
    ⟨humanizeBy_humanizeBy capitalizes name, labels_humanizeBy capitalizes name⟩
  exact ⟨all Text.upperCase upperCase_capitalizes, all⟩

/-- A first character that becomes two, and one whose upper case is no letter at first. -/
theorem humanize_humanize_longer : Capitalizes Text.upperCase ∧
    humanizeBy Text.upperCase "ßeta-ŉ__x" = "SSeta ʼN  X" ∧
      humanizeBy Text.upperCase (humanizeBy Text.upperCase "ßeta-ŉ__x") =
          humanizeBy Text.upperCase "ßeta-ŉ__x" ∧
        Labels Text.upperCase "ßeta-ŉ__x" (humanizeBy Text.upperCase "ßeta-ŉ__x") :=
  ⟨upperCase_capitalizes, by decide +kernel,
    humanize_humanize.2 Text.upperCase upperCase_capitalizes "ßeta-ŉ__x"⟩

end FormTree.Label
