import FormTree.Config
import FormTree.Proofs.Json.Pointer
import FormTree.Proofs.Text.Replace

/-!
The titles of items. The format has places for the title of the field and for the
number of the item. They are filled one after the other, which is the same as
filling both at once exactly when putting the title in makes no further place for
the number.
-/

namespace FormTree
namespace CompileOptions

open Config (numberPlace)
open Text (Apart occurrences replaceChars)

def titlePlace : String := "\x7btitle\x7d"

/-- The characters of a format, with title and number put in at once. -/
def fillChars (title number : List Char) : List Char → List Char
  | '{' :: 't' :: 'i' :: 't' :: 'l' :: 'e' :: '}' :: rest => title ++ fillChars title number rest
  | '{' :: 'n' :: 'u' :: 'm' :: 'b' :: 'e' :: 'r' :: '}' :: rest =>
    number ++ fillChars title number rest
  | c :: rest => c :: fillChars title number rest
  | [] => []

/-- A format with a title and a number put in their places at once. -/
def filled (format title : String) (n : Nat) : String :=
  String.ofList (fillChars title.toList (toString n).toList format.toList)

/-- The places for the number in a text. -/
def numberPlaces (text : String) : Nat := occurrences numberPlace.toList text.toList

variable {title number cs rest : List Char} {c : Char}

theorem apart_titlePlace : Apart titlePlace.toList := ⟨'{', _, rfl, by decide⟩

theorem apart_numberPlace : Apart numberPlace.toList := ⟨'{', _, rfl, by decide⟩

/-- A format is read as places and characters at which none begins. -/
@[elab_as_elim]
theorem formatInduct {motive : List Char → Prop} (nil : motive [])
    (title : ∀ rest, motive rest → motive (titlePlace.toList ++ rest))
    (number : ∀ rest, motive rest → motive (numberPlace.toList ++ rest))
    (char : ∀ c rest, ¬titlePlace.toList <+: c :: rest → ¬numberPlace.toList <+: c :: rest →
      motive rest → motive (c :: rest)) (format : List Char) : motive format := by
  fun_induction fillChars [] [] format with
  | case1 rest ih => exact title rest ih
  | case2 rest ih => exact number rest ih
  | case3 c rest noTitle noNumber ih =>
      refine char c rest ?_ ?_ ih
      · rintro ⟨tail, whole⟩
        obtain ⟨rfl, rfl⟩ := List.cons.inj whole
        exact noTitle tail rfl rfl
      · rintro ⟨tail, whole⟩
        obtain ⟨rfl, rfl⟩ := List.cons.inj whole
        exact noNumber tail rfl rfl
  | case4 => exact nil

theorem fillChars_title :
    fillChars title number (titlePlace.toList ++ rest) = title ++ fillChars title number rest :=
  rfl

theorem fillChars_number :
    fillChars title number (numberPlace.toList ++ rest) = number ++ fillChars title number rest :=
  rfl

theorem fillChars_char (noTitle : ¬titlePlace.toList <+: c :: rest)
    (noNumber : ¬numberPlace.toList <+: c :: rest) :
    fillChars title number (c :: rest) = c :: fillChars title number rest := by
  rw [fillChars]
  · rintro tail rfl rfl
    exact noTitle (List.prefix_append titlePlace.toList tail)
  · rintro tail rfl rfl
    exact noNumber (List.prefix_append numberPlace.toList tail)

/-- Putting the title in alone leaves the places for the number. -/
theorem replaceChars_titlePlace :
    replaceChars titlePlace.toList title 0 cs = fillChars title numberPlace.toList cs := by
  induction cs using formatInduct with
  | nil => rfl
  | title rest ih => rw [apart_titlePlace.replaceChars_append, ih, fillChars_title]
  | number rest ih => exact congrArg (numberPlace.toList ++ ·) ih
  | char c rest noTitle noNumber ih =>
      rw [Text.replaceChars_cons_of_not_here noTitle, ih, fillChars_char noTitle noNumber]

private theorem occurrences_title : occurrences numberPlace.toList (titlePlace.toList ++ rest) =
    occurrences numberPlace.toList rest := rfl

/-- No place for the number is lost where the title is put in. -/
theorem occurrences_le_fillChars (title cs : List Char) : occurrences numberPlace.toList cs ≤
    occurrences numberPlace.toList (fillChars title numberPlace.toList cs) := by
  induction cs using formatInduct with
  | nil => exact Nat.le_refl _
  | title rest ih =>
      rw [occurrences_title, fillChars_title]
      exact Nat.le_trans ih (Nat.le_trans (Nat.le_add_left _ _) (Text.occurrences_add_le _ _ _))
  | number rest ih =>
      rw [fillChars_number, apart_numberPlace.occurrences_append,
        apart_numberPlace.occurrences_append]
      exact Nat.succ_le_succ ih
  | char c rest noTitle noNumber ih =>
      rw [fillChars_char noTitle noNumber, Text.occurrences_cons_of_not_here noNumber]
      exact Nat.le_trans ih Text.occurrences_le_cons

/-- Where no place for the number is made, only those of the format are filled after the title. -/
theorem replaceChars_fillChars
    (same : occurrences numberPlace.toList (fillChars title numberPlace.toList cs) =
      occurrences numberPlace.toList cs) :
    replaceChars numberPlace.toList number 0 (fillChars title numberPlace.toList cs) =
      fillChars title number cs := by
  induction cs using formatInduct with
  | nil => rfl
  | title rest ih =>
      rw [fillChars_title, occurrences_title] at same
      have sides := Text.occurrences_add_le numberPlace.toList title
        (fillChars title numberPlace.toList rest)
      have kept := occurrences_le_fillChars title rest
      rw [fillChars_title, fillChars_title,
        apart_numberPlace.replaceChars_append_of_occurrences (by omega),
        apart_numberPlace.replaceChars_of_none (by omega), ih (by omega)]
  | number rest ih =>
      rw [fillChars_number, apart_numberPlace.occurrences_append,
        apart_numberPlace.occurrences_append, Nat.add_right_cancel_iff] at same
      rw [fillChars_number, fillChars_number, apart_numberPlace.replaceChars_append, ih same]
  | char c rest noTitle noNumber ih =>
      rw [fillChars_char noTitle noNumber, Text.occurrences_cons_of_not_here noNumber] at same
      have kept := occurrences_le_fillChars title rest
      have none : ¬numberPlace.toList <+: c :: fillChars title numberPlace.toList rest := by
        intro here
        rw [occurrences, if_pos here] at same
        omega
      rw [Text.occurrences_cons_of_not_here none] at same
      rw [fillChars_char noTitle noNumber, fillChars_char noTitle noNumber,
        Text.replaceChars_cons_of_not_here none, ih same]

/-- Each place of the format that is filled takes a brace out of the text. -/
theorem count_fillChars (absent : '{' ∉ number) (title cs : List Char) :
    (fillChars title number cs).count '{' + occurrences numberPlace.toList cs =
      (fillChars title numberPlace.toList cs).count '{' := by
  induction cs using formatInduct with
  | nil => rfl
  | title rest ih =>
      rw [fillChars_title, fillChars_title, occurrences_title, List.count_append,
        List.count_append, ← ih, Nat.add_assoc]
  | number rest ih =>
      have brace : numberPlace.toList.count '{' = 1 := by decide
      rw [fillChars_number, fillChars_number, apart_numberPlace.occurrences_append,
        List.count_append, List.count_append, ← ih, brace, List.count_eq_zero_of_not_mem absent]
      omega
  | char c rest noTitle noNumber ih =>
      rw [fillChars_char noTitle noNumber, fillChars_char noTitle noNumber,
        Text.occurrences_cons_of_not_here noNumber, List.count_cons, List.count_cons, ← ih]
      omega

theorem fillChars_eq_iff (absent : '{' ∉ number) :
    replaceChars numberPlace.toList number 0 (fillChars title numberPlace.toList cs) =
        fillChars title number cs ↔
      occurrences numberPlace.toList (fillChars title numberPlace.toList cs) =
        occurrences numberPlace.toList cs := by
  refine ⟨fun same => ?_, replaceChars_fillChars⟩
  have once : '{' ∉ numberPlace.toList.tail := by decide
  have after := Text.count_replaceChars once absent (fillChars title numberPlace.toList cs)
  have atOnce := count_fillChars absent title cs
  rw [← atOnce, ← same] at after
  exact Nat.add_left_cancel after

private theorem brace_not_mem_toString (n : Nat) : '{' ∉ (toString n).toList := fun h =>
  absurd (Pointer.isDigit_of_mem_toString h) (by decide)

theorem toList_titled (format title : String) : (Text.replace format titlePlace title).toList =
    fillChars title.toList numberPlace.toList format.toList := by
  rw [Text.toList_replace, replaceChars_titlePlace]

theorem itemTitle_eq (o : CompileOptions) (title : String) (i : Nat) : o.itemTitle title i =
    String.ofList (replaceChars numberPlace.toList (toString (i + 1)).toList 0
      (fillChars title.toList numberPlace.toList o.itemTitleFormat.toList)) := by
  rw [← toList_titled]
  rfl

/-- The title of an item is the format with title and number put in at once iff the format has as
many places for the number once the title is in it. -/
theorem itemTitle_eq_filled_iff (o : CompileOptions) (title : String) (i : Nat) :
    o.itemTitle title i = filled o.itemTitleFormat title (i + 1) ↔
      numberPlaces (Text.replace o.itemTitleFormat titlePlace title) =
        numberPlaces o.itemTitleFormat := by
  rw [itemTitle_eq, filled, numberPlaces, toList_titled, String.ofList_inj,
    fillChars_eq_iff (brace_not_mem_toString (i + 1))]
  rfl

/-- A title that is itself a place for the number is not shown. -/
theorem title_filled_with_number :
    itemTitle {} numberPlace 0 = "1 (value 1)" ∧
      filled ({} : CompileOptions).itemTitleFormat numberPlace 1 = "\x7bnumber\x7d (value 1)" ∧
        itemTitle {} numberPlace 0 ≠ filled ({} : CompileOptions).itemTitleFormat numberPlace 1 := by
  decide

end CompileOptions
end FormTree
