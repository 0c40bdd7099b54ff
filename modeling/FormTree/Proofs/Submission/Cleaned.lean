import FormTree.Proofs.Json.Parts
import FormTree.Proofs.Submission.Clean

/-!
What cleaning does in one step. A list, or a mapping that is read as one, becomes the list of its
cleaned values without the blank ones at its end, where wrappers give way to what they wrap if
there is nothing but wrappers. Every other mapping keeps its keys. So nothing blank is left behind
a key or at the end of a list, at any depth.
-/

namespace FormTree

namespace Json

/-- A value in which nothing is filled in. -/
inductive Blank : Json → Prop
  | null : Blank .null
  | text : Blank (.string "")
  | items : Blank (.array [])
  | members : Blank (.object [])

/-- No entry of the value is blank, nor is the last of its items. -/
def Filled : Json → Prop
  | .array items => ∀ last, items.getLast? = some last → ¬last.Blank
  | .object members => ∀ m ∈ members, ¬m.2.Blank
  | _ => True

end Json

namespace Submission

open Json (Blank Filled)

variable {v w : Json} {items values held : List Json} {members : List (String × Json)}

theorem isBlank_iff : isBlank v = true ↔ v.Blank := by
  constructor
  · intro h
    cases v with
    | null => exact .null
    | bool _ | number _ => cases h
    | string text =>
        obtain rfl := String.isEmpty_iff.1 h
        exact .text
    | array items =>
        obtain rfl := List.isEmpty_iff.1 h
        exact .items
    | object members =>
        obtain rfl := List.isEmpty_iff.1 h
        exact .members
  · intro h
    cases h <;> rfl

/-- A wrapper has two entries, one under each of its keys, in either order. -/
theorem isWrapper_iff : isWrapper w = true ↔ ∃ v, Wraps v w := by
  constructor
  · intro h
    cases w with
    | object members =>
        simp only [isWrapper, Bool.and_eq_true, beq_iff_eq] at h
        obtain ⟨⟨length, wraps⟩, removes⟩ := h
        obtain ⟨a, b, rfl⟩ := List.length_eq_two.1 length
        obtain ⟨v, held⟩ := Option.isSome_iff_exists.1 wraps
        obtain ⟨label, control⟩ : ∃ label,
            [a, b].lookup Control.remove.key = some (.string label) := by
          cases found : [a, b].lookup Control.remove.key with
          | none => simp [found] at removes
          | some x => cases x <;> simp [found, Json.isString, Json.string?] at removes ⊢
        have first := mem_of_lookup held
        have second := mem_of_lookup control
        have apart : Segment.wrapperKey ≠ Control.remove.key := by decide
        simp only [List.mem_cons, List.not_mem_nil, or_false] at first second
        rcases first with rfl | rfl
        · rcases second with same | rfl
          · exact absurd (congrArg Prod.fst same).symm apart
          · exact ⟨v, .first label⟩
        · rcases second with rfl | same
          · exact ⟨v, .last label⟩
          · exact absurd (congrArg Prod.fst same).symm apart
    | _ => cases h
  · intro h
    obtain ⟨v, wraps⟩ := h
    exact wraps.isWrapper

theorem cleanItems_eq (wrapped : Bool) (items : List Json) :
    cleanItems wrapped items = items.map fun v => if wrapped then cleanWrapped v else clean v := by
  induction items with
  | nil => rfl
  | cons v items ih => rw [cleanItems, ih, List.map_cons]

/-- The values of a list, or of a mapping that is read as one. -/
inductive Listed : Json → List Json → Prop
  | array (items : List Json) : Listed (.array items) items
  | mapping {members : List (String × Json)} (indexed : isIndexed members = true) :
      Listed (.object members) ((entries members).map Prod.snd)

/-- What stands in a list for its values: what they wrap, if all are wrappers, else they
themselves. -/
inductive Unwrapped : List Json → List Json → Prop
  | wrapped {values held : List Json} (wraps : List.Forall₂ Wraps held values) :
      Unwrapped values held
  | bare {values : List Json} (other : ∃ w ∈ values, ∀ v, ¬Wraps v w) : Unwrapped values values

/-- Cleaning in one step, with the same for the values that are cleaned inside. -/
inductive Cleaned : Json → Json → Prop
  | scalar {v : Json} (leaf : v.isContainer = false) : Cleaned v v
  | sequence {v : Json} {values held : List Json} (listed : Listed v values)
      (unwrapped : Unwrapped values held) (below : ∀ u ∈ held, Cleaned u (clean u)) :
      Cleaned v (.array (dropBlankTail (held.map clean)))
  | mapping {members : List (String × Json)} (named : isIndexed members = false)
      (below : ∀ m ∈ entries members, Cleaned m.2 (clean m.2)) :
      Cleaned (.object members) (.object (cleanEntries members))

theorem exists_wrapped (wrappers : ∀ w ∈ values, ∃ v, Wraps v w) :
    ∃ held, List.Forall₂ Wraps held values := by
  induction values with
  | nil => exact ⟨[], .nil⟩
  | cons w values ih =>
      rw [List.forall_mem_cons] at wrappers
      obtain ⟨v, wraps⟩ := wrappers.1
      obtain ⟨held, rest⟩ := ih wrappers.2
      exact ⟨v :: held, .cons wraps rest⟩

theorem map_cleanWrapped (wraps : List.Forall₂ Wraps held values) :
    values.map cleanWrapped = held.map clean := by
  induction wraps with
  | nil => rfl
  | cons wraps _ ih => rw [List.map_cons, List.map_cons, wraps.cleanWrapped, ih]

/-- The values of a list are cleaned in one of two ways. -/
theorem exists_unwrapped (values : List Json) :
    ∃ held, Unwrapped values held ∧
      (values.map fun v => if values.all isWrapper then cleanWrapped v else clean v) =
        held.map clean := by
  cases wrapped : values.all isWrapper with
  | true =>
      have wrappers : ∀ w ∈ values, ∃ v, Wraps v w := fun w hw =>
        isWrapper_iff.1 (List.all_eq_true.1 wrapped w hw)
      obtain ⟨held, wraps⟩ := exists_wrapped wrappers
      exact ⟨held, .wrapped wraps, map_cleanWrapped wraps⟩
  | false =>
      obtain ⟨w, hw, other⟩ := List.all_eq_false.1 wrapped
      exact ⟨values, .bare ⟨w, hw, fun v wraps => other wraps.isWrapper⟩, rfl⟩

/-- What holds of the values of a list and of all that they wrap holds of what stands in it. -/
theorem Unwrapped.forall {P : Json → Prop} (unwrapped : Unwrapped values held)
    (h : ∀ w ∈ values, P w ∧ ∀ u, Wraps u w → P u) : ∀ u ∈ held, P u := by
  cases unwrapped with
  | bare _ => exact fun w hw => (h w hw).1
  | wrapped wraps =>
      induction wraps with
      | nil => exact List.forall_mem_nil P
      | cons wraps _ ih =>
          rw [List.forall_mem_cons] at h ⊢
          exact ⟨h.1.2 _ wraps, ih h.2⟩

/-- A mapping is unwrapped like the list of its values. -/
theorem all_isWrapper (members : List (String × Json)) :
    (members.all fun m => isAddLabel m || isWrapper m.2) =
      ((entries members).map Prod.snd).all isWrapper := by
  rw [entries, List.all_map, List.all_filter]
  simp only [Bool.not_not, Function.comp_apply]

theorem cleaned_sequence {v : Json} (listed : Listed v values)
    (below : ∀ w ∈ values, Cleaned w (clean w) ∧ ∀ u, Wraps u w → Cleaned u (clean u)) :
    Cleaned v (clean v) := by
  obtain ⟨held, unwrapped, same⟩ := exists_unwrapped values
  have step : clean v = .array (dropBlankTail (held.map clean)) := by
    cases listed with
    | array => rw [clean, cleanItems_eq, same]
    | @mapping members indexed =>
        have cleanedValues : cleanValues (members.all fun m => isAddLabel m || isWrapper m.2)
            members = held.map clean := by
          rw [all_isWrapper, cleanValues_eq, ← same, List.map_map]
          rfl
        rw [clean, if_pos indexed]
        exact congrArg (fun values => Json.array (dropBlankTail values)) cleanedValues
  rw [step]
  exact .sequence listed unwrapped (unwrapped.forall below)

/-- What is wrapped is two levels below the list, so the induction carries it along. -/
private theorem cleaned_and_wrapped (v : Json) :
    Cleaned v (clean v) ∧ ∀ u, Wraps u v → Cleaned u (clean u) := by
  induction v using Json.induct with
  | leaf v leaf =>
      have kept : clean v = v := by
        cases v with
        | array _ | object _ => cases leaf
        | _ => rw [clean] <;> rintro _ ⟨⟩
      refine ⟨?_, ?_⟩
      · rw [kept]
        exact .scalar leaf
      · intro u wraps
        cases wraps <;> cases leaf
  | array items ih =>
      refine ⟨cleaned_sequence (.array items) ih, ?_⟩
      intro u wraps
      cases wraps
  | object members ih =>
      have inside : ∀ m ∈ entries members, m ∈ members := fun m hm => (List.mem_filter.1 hm).1
      refine ⟨?_, ?_⟩
      · cases indexed : isIndexed members with
        | true =>
            refine cleaned_sequence (.mapping indexed) ?_
            intro w hw
            obtain ⟨m, hm, rfl⟩ := List.mem_map.1 hw
            exact ih m (inside m hm)
        | false =>
            rw [clean, if_neg (Bool.eq_false_iff.1 indexed)]
            exact .mapping indexed fun m hm => (ih m (inside m hm)).1
      · intro u wraps
        cases wraps with
        | first label => exact (ih _ List.mem_cons_self).1
        | last label => exact (ih _ (List.mem_cons_of_mem _ List.mem_cons_self)).1

theorem cleaned (v : Json) : Cleaned v (clean v) := (cleaned_and_wrapped v).1

theorem getLast?_dropBlankTail {last : Json} (h : (dropBlankTail items).getLast? = some last) :
    ¬last.Blank := by
  have nonempty : dropBlankTail items ≠ [] := by
    intro empty
    rw [empty] at h
    cases h
  rw [List.getLast?_eq_some_getLast nonempty, Option.some_inj] at h
  rw [← isBlank_iff, ← h]
  exact List.rdropWhile_last_not isBlank items nonempty

theorem mem_of_dropBlankTail (h : v ∈ dropBlankTail items) : v ∈ items :=
  (List.rdropWhile_prefix isBlank items).mem h

/-- Whatever is cleaned, nothing blank is left behind a key or at the end of a list. -/
theorem everywhere_filled_clean (raw : Json) : (clean raw).Everywhere Filled := by
  have step := cleaned raw
  generalize clean raw = v at step
  induction step with
  | @scalar v leaf =>
      rw [Json.everywhere_leaf_iff leaf]
      cases v with
      | array _ | object _ => cases leaf
      | _ => trivial
  | sequence _ _ _ ih =>
      rw [Json.everywhere_array_iff]
      refine ⟨fun last => getLast?_dropBlankTail, ?_⟩
      intro v hv
      obtain ⟨u, hu, rfl⟩ := List.mem_map.1 (mem_of_dropBlankTail hv)
      exact ih u hu
  | mapping _ _ ih =>
      rw [Json.everywhere_object_iff]
      refine ⟨?_, ?_⟩
      · rintro ⟨key, x⟩ hm
        obtain ⟨-, -, -, notBlank⟩ := mem_cleanEntries.1 hm
        rw [← isBlank_iff, notBlank]
        exact Bool.false_ne_true
      · rintro ⟨key, x⟩ hm
        obtain ⟨u, hu, rfl, -⟩ := mem_cleanEntries.1 hm
        exact ih (key, u) hu

/-- A list of one blank item goes with the entry that holds it. -/
example : clean (.object [("tags", .object [("0", .object
    [("removable_element", .string ""), ("remove_one", .string "Remove")])])]) = .object [] := rfl

end Submission

end FormTree
