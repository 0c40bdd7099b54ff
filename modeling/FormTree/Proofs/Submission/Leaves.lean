import FormTree.Proofs.Submission.Cleaned
import Mathlib.Data.List.Forall2

/-!
What was entered and what is left of it. The leaves of a value are its numbers, booleans and texts
with characters, in order. Cleaning takes away leaves that are labels of controls, and no others;
it adds none and changes no order.
-/

namespace FormTree

namespace Json

/-- A leaf and the key that it stands right under, if that is no list and not the outermost
value. -/
structure Leaf where
  key : Option String
  value : Json

/-- A text right under the key of a control. -/
def Leaf.IsLabel (l : Leaf) : Prop :=
  ∃ kind : Control, l.key = some kind.key ∧ ∃ text, l.value = .string text

mutual

/-- The leaves of a value that stands under `key`. -/
def leaves (key : Option String) : Json → List Leaf
  | .null => []
  | .bool b => [⟨key, .bool b⟩]
  | .number n => [⟨key, .number n⟩]
  | .string text => if text = "" then [] else [⟨key, .string text⟩]
  | .array items => itemLeaves items
  | .object members => memberLeaves members

def itemLeaves : List Json → List Leaf
  | [] => []
  | v :: rest => leaves none v ++ itemLeaves rest

def memberLeaves : List (String × Json) → List Leaf
  | [] => []
  | (key, v) :: rest => leaves (some key) v ++ memberLeaves rest

end

def leafValues (v : Json) : List Json := (v.leaves none).map Leaf.value

/-- No key of a control has a text right under it. -/
def LacksLabels : Json → Prop
  | .object members =>
    ∀ m ∈ members, ∀ kind : Control, m.1 = kind.key → ∀ text, m.2 ≠ .string text
  | _ => True

variable {v : Json} {items : List Json} {members : List (String × Json)}

theorem leaves_array (key : Option String) (items : List Json) :
    (Json.array items).leaves key = items.flatMap (leaves none) := by
  rw [leaves]
  induction items with
  | nil => rfl
  | cons v items ih => rw [itemLeaves, ih, List.flatMap_cons]

theorem leaves_object (key : Option String) (members : List (String × Json)) :
    (Json.object members).leaves key = members.flatMap fun m => m.2.leaves (some m.1) := by
  rw [leaves]
  induction members with
  | nil => rfl
  | cons m members ih => rw [memberLeaves, ih, List.flatMap_cons]

/-- The values of leaves do not hang on where they stand. -/
theorem map_value_leaves (key : Option String) (v : Json) :
    (v.leaves key).map Leaf.value = v.leafValues := by
  cases v with
  | array items => rw [leafValues, leaves_array, leaves_array]
  | object members => rw [leafValues, leaves_object, leaves_object]
  | string text =>
      simp only [leafValues, leaves]
      split <;> rfl
  | _ => rfl

theorem leafValues_array (items : List Json) :
    (Json.array items).leafValues = items.flatMap leafValues := by
  rw [leafValues, leaves_array, List.map_flatMap]
  rfl

theorem leafValues_object (members : List (String × Json)) :
    (Json.object members).leafValues = members.flatMap fun m => m.2.leafValues := by
  rw [leafValues, leaves_object, List.map_flatMap]
  simp only [map_value_leaves]

theorem Blank.leafValues_eq (h : v.Blank) : v.leafValues = [] := by
  cases h <;> rfl

/-- A label among the leaves of a value without labels is that value. -/
theorem eq_of_isLabel {key : Option String} (lacks : v.Everywhere LacksLabels) {l : Leaf}
    (held : l ∈ v.leaves key) (label : l.IsLabel) : l.key = key ∧ l.value = v := by
  induction v using Json.induct generalizing key with
  | leaf v leaf =>
      have only : l = ⟨key, v⟩ := by
        cases v with
        | array _ | object _ => cases leaf
        | null => cases held
        | bool _ | number _ => exact List.mem_singleton.1 held
        | string text =>
            rw [leaves] at held
            split at held
            · cases held
            · exact List.mem_singleton.1 held
      rw [only]
      exact ⟨rfl, rfl⟩
  | array items ih =>
      rw [everywhere_array_iff] at lacks
      rw [leaves_array] at held
      -- Right under a list there is no key, so no label either.
      obtain ⟨v, hv, held⟩ := List.mem_flatMap.1 held
      obtain ⟨place, -⟩ := ih v hv (lacks.2 v hv) held
      obtain ⟨kind, under, -⟩ := label
      cases place.symm.trans under
  | object members ih =>
      rw [everywhere_object_iff] at lacks
      rw [leaves_object] at held
      obtain ⟨m, hm, held⟩ := List.mem_flatMap.1 held
      obtain ⟨place, same⟩ := ih m hm (lacks.2 m hm) held
      obtain ⟨kind, under, text, isText⟩ := label
      exact absurd (same.symm.trans isText)
        (lacks.1 m hm kind (Option.some.inj (place.symm.trans under)) text)

end Json

namespace Submission

open Json (Leaf leaves leafValues LacksLabels)

variable {v w raw : Json} {values : List Json} {all all' : List Leaf} {kept kept' : List Json}

/-- What is left of leaves after some of the labels among them are taken away. -/
inductive Keeps : List Leaf → List Json → Prop
  | nil : Keeps [] []
  | keep {all : List Leaf} {kept : List Json} (l : Leaf) (rest : Keeps all kept) :
      Keeps (l :: all) (l.value :: kept)
  | drop {all : List Leaf} {kept : List Json} {l : Leaf} (label : l.IsLabel)
      (rest : Keeps all kept) : Keeps (l :: all) kept

namespace Keeps

theorem refl (all : List Leaf) : Keeps all (all.map Leaf.value) := by
  induction all with
  | nil => exact .nil
  | cons l all ih => exact .keep l ih

theorem append (h : Keeps all kept) (h' : Keeps all' kept') :
    Keeps (all ++ all') (kept ++ kept') := by
  induction h with
  | nil => exact h'
  | keep l _ ih => exact .keep l ih
  | drop label _ ih => exact .drop label ih

theorem eq_map (h : Keeps all kept) (none : ∀ l ∈ all, ¬l.IsLabel) :
    kept = all.map Leaf.value := by
  induction h with
  | nil => rfl
  | keep l _ ih =>
      rw [List.forall_mem_cons] at none
      rw [List.map_cons, ih none.2]
  | drop label _ _ => exact absurd label (none _ List.mem_cons_self)

end Keeps

/-- A value keeps the leaves of what is made of it, wherever it stands. -/
def KeepsLeaves (v w : Json) : Prop := ∀ key, Keeps (v.leaves key) w.leafValues

theorem keeps_label {text : String} (kind : Control) :
    Keeps ((Json.string text).leaves (some kind.key)) [] := by
  rw [leaves]
  split
  · exact .nil
  · exact .drop ⟨kind, rfl, text, rfl⟩ .nil

theorem keeps_addLabel {m : String × Json} (label : isAddLabel m = true) :
    Keeps (m.2.leaves (some m.1)) [] := by
  obtain ⟨key, v⟩ := m
  rw [isAddLabel, Bool.and_eq_true, beq_iff_eq] at label
  obtain ⟨rfl, isText⟩ := label
  cases v with
  | string text => exact keeps_label .addMore
  | _ => cases isText

/-- Only the label of the remove control is lost with a wrapper. -/
theorem Wraps.keepsLeaves (wraps : Wraps v w) {x : Json} (h : KeepsLeaves v x) :
    KeepsLeaves w x := by
  intro key
  cases wraps with
  | first label =>
      rw [Json.leaves_object, ← List.append_nil x.leafValues]
      exact (h _).append ((keeps_label .remove).append .nil)
  | last label =>
      rw [Json.leaves_object, ← List.nil_append x.leafValues, ← List.append_nil x.leafValues]
      exact (keeps_label .remove).append ((h _).append .nil)

theorem Unwrapped.keepsLeaves {held : List Json} (unwrapped : Unwrapped values held)
    (below : ∀ u ∈ held, KeepsLeaves u (clean u)) :
    List.Forall₂ KeepsLeaves values (held.map clean) := by
  cases unwrapped with
  | bare _ =>
      rw [List.forall₂_map_right_iff, List.forall₂_same]
      exact below
  | wrapped wraps =>
      induction wraps with
      | nil => exact .nil
      | cons wraps _ ih =>
          rw [List.forall_mem_cons] at below
          exact .cons (wraps.keepsLeaves below.1) (ih below.2)

/-- The label of the add control is lost where the leaves of entries are collected. -/
theorem keeps_entries {members : List (String × Json)} {parts : List (List Json)}
    (rows : List.Forall₂ (fun m part => Keeps (m.2.leaves (some m.1)) part) (entries members)
      parts) :
    Keeps (members.flatMap fun m => m.2.leaves (some m.1)) parts.flatten := by
  induction members generalizing parts with
  | nil =>
      cases rows
      exact .nil
  | cons m members ih =>
      rw [entries, List.filter_cons] at rows
      rw [List.flatMap_cons]
      cases label : isAddLabel m with
      | true =>
          rw [label] at rows
          exact (keeps_addLabel label).append (ih rows)
      | false =>
          rw [label] at rows
          cases rows with
          | cons row rows =>
              rw [List.flatten_cons]
              exact row.append (ih rows)

theorem Listed.keepsLeaves (listed : Listed v values) {items : List Json}
    (rows : List.Forall₂ KeepsLeaves values items) : KeepsLeaves v (.array items) := by
  intro key
  rw [Json.leafValues_array]
  cases listed with
  | array =>
      rw [Json.leaves_array]
      induction rows with
      | nil => exact .nil
      | cons row _ ih =>
          rw [List.flatMap_cons, List.flatMap_cons]
          exact (row none).append ih
  | mapping _ =>
      rw [List.forall₂_map_left_iff] at rows
      rw [Json.leaves_object, List.flatMap_def]
      refine keeps_entries ?_
      rw [List.forall₂_map_right_iff]
      exact rows.imp fun m x row => row (some m.1)

theorem leafValues_dropBlankTail (items : List Json) :
    (Json.array (dropBlankTail items)).leafValues = (Json.array items).leafValues := by
  have blank : (items.rtakeWhile isBlank).flatMap leafValues = [] := by
    rw [List.flatMap_eq_nil_iff]
    intro v hv
    exact (isBlank_iff.1 (List.mem_rtakeWhile_imp hv)).leafValues_eq
  conv_rhs => rw [← dropBlankTail_append items]
  rw [Json.leafValues_array, Json.leafValues_array, List.flatMap_append, blank, List.append_nil]

theorem leafValues_cleanEntries (members : List (String × Json)) :
    (Json.object (cleanEntries members)).leafValues =
      (entries members).flatMap fun m => (clean m.2).leafValues := by
  rw [Json.leafValues_object, cleanEntries_eq]
  induction entries members with
  | nil => rfl
  | cons m rest ih =>
      rw [List.filterMap_cons, List.flatMap_cons, ← ih]
      cases blank : isBlank (clean m.2) with
      | true =>
          rw [(isBlank_iff.1 blank).leafValues_eq]
          rfl
      | false => rfl

theorem keepsLeaves_clean (raw : Json) : KeepsLeaves raw (clean raw) := by
  have step := cleaned raw
  generalize clean raw = v at step
  induction step with
  | scalar _ =>
      intro key
      rw [← Json.map_value_leaves key]
      exact .refl _
  | sequence listed unwrapped _ ih =>
      intro key
      rw [leafValues_dropBlankTail]
      exact listed.keepsLeaves (unwrapped.keepsLeaves ih) key
  | mapping _ _ ih =>
      intro key
      rw [Json.leaves_object, leafValues_cleanEntries, List.flatMap_def]
      refine keeps_entries ?_
      rw [List.forall₂_map_right_iff, List.forall₂_same]
      exact fun m hm => ih m hm (some m.1)

/-- Cleaning takes away labels of controls only, in place, and nothing where there are none. -/
theorem leaves_clean (raw : Json) :
    Keeps (raw.leaves none) (clean raw).leafValues ∧
      (raw.Everywhere LacksLabels → (clean raw).leafValues = raw.leafValues) := by
  refine ⟨keepsLeaves_clean raw none, fun lacks => ?_⟩
  refine (keepsLeaves_clean raw none).eq_map fun l held label => ?_
  obtain ⟨place, -⟩ := Json.eq_of_isLabel lacks held label
  obtain ⟨kind, under, -⟩ := label
  cases place.symm.trans under

/-- Items under their indices that are no wrappers, next to a blank entry. -/
private def unwrappable : Json :=
  .object [("rows", .object
    [("1", .object [("removable_element", .string "b"), ("remove_two", .string "c")]),
      ("0", .object [("removable_element", .string "a")])]), ("blank", .string "")]

theorem leaves_clean_unwrappable :
    (clean unwrappable).leafValues = [.string "b", .string "c", .string "a"] := by
  have other (kind : Control) :
      "removable_element" ≠ kind.key ∧ "remove_two" ≠ kind.key ∧ "blank" ≠ kind.key := by
    cases kind <;> decide
  have lacks : unwrappable.Everywhere LacksLabels := by
    simp [unwrappable, LacksLabels, other]
  exact ((leaves_clean unwrappable).2 lacks).trans rfl

end Submission

end FormTree
