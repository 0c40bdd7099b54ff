import FormTree.Compile
import FormTree.Proofs.Json.Pointer
import FormTree.Proofs.Lookup
import FormTree.Submission.Clean
import Mathlib.Data.List.DropRight

/-!
Cleaning of what widgets submit. An object of plain names keeps the entries that
were filled in; items under their indices become a sequence of what they wrap,
in the order of the submission, of which only blank values at the end are lost.
-/

namespace FormTree.Submission

/-- The entries of a mapping without the label of the add control. -/
def entries (members : List (String × Json)) : List (String × Json) :=
  members.filter fun m => !isAddLabel m

theorem cleanValues_eq (wrapped : Bool) (members : List (String × Json)) :
    cleanValues wrapped members =
      (entries members).map fun m => if wrapped then cleanWrapped m.2 else clean m.2 := by
  induction members with
  | nil => rfl
  | cons m members ih =>
      obtain ⟨key, v⟩ := m
      rw [cleanValues, entries, List.filter_cons, ih]
      cases isAddLabel (key, v) <;> rfl

theorem cleanEntries_eq (members : List (String × Json)) :
    cleanEntries members = (entries members).filterMap fun m =>
      if isBlank (clean m.2) then none else some (m.1, clean m.2) := by
  induction members with
  | nil => rfl
  | cons m members ih =>
      obtain ⟨key, v⟩ := m
      rw [cleanEntries, entries, List.filter_cons, ih]
      cases isAddLabel (key, v) with
      | true => rfl
      | false =>
          simp only [Bool.not_false, if_true, List.filterMap_cons]
          cases isBlank (clean v) <;> rfl

theorem mem_cleanEntries {members : List (String × Json)} {key : String} {x : Json} :
    (key, x) ∈ cleanEntries members ↔
      ∃ v, (key, v) ∈ entries members ∧ clean v = x ∧ isBlank x = false := by
  rw [cleanEntries_eq, List.mem_filterMap]
  constructor
  · rintro ⟨⟨k, v⟩, hm, h⟩
    split at h
    · cases h
    · next hb =>
      cases h
      exact ⟨v, hm, rfl, Bool.eq_false_iff.2 hb⟩
  · rintro ⟨v, hm, rfl, hb⟩
    exact ⟨(key, v), hm, by simp [hb]⟩

theorem keys_cleanEntries_sublist (members : List (String × Json)) :
    ((cleanEntries members).map Prod.fst).Sublist (members.map Prod.fst) := by
  induction members with
  | nil => exact .slnil
  | cons m members ih =>
      obtain ⟨key, v⟩ := m
      rw [cleanEntries]
      split
      · exact ih.cons key
      · dsimp only
        split
        · exact ih.cons key
        · exact ih.cons_cons key

theorem dropBlankTail_append (items : List Json) :
    dropBlankTail items ++ items.rtakeWhile isBlank = items :=
  List.rdropWhile_append_rtakeWhile

theorem getElem?_of_dropBlankTail {items : List Json} {n : Nat} {x : Json}
    (h : (dropBlankTail items)[n]? = some x) : items[n]? = some x := by
  rw [← dropBlankTail_append items, List.getElem?_append_left (List.getElem?_eq_some_iff.1 h).1]
  exact h

/-- A value that is not blank keeps its place. -/
theorem getElem?_dropBlankTail {items : List Json} {n : Nat} {x : Json}
    (h : items[n]? = some x) (hx : isBlank x = false) : (dropBlankTail items)[n]? = some x := by
  rw [← dropBlankTail_append items] at h
  rcases Nat.lt_or_ge n (dropBlankTail items).length with hlt | hge
  · rwa [List.getElem?_append_left hlt] at h
  · rw [List.getElem?_append_right hge] at h
    have blank := List.mem_rtakeWhile_imp (List.mem_of_getElem? h)
    rw [hx] at blank
    cases blank

/-- A wrapper around an item, beside the label of its remove control. -/
inductive Wraps (v : Json) : Json → Prop
  | first (label : String) :
      Wraps v (.object [(Segment.wrapperKey, v), (Control.remove.key, .string label)])
  | last (label : String) :
      Wraps v (.object [(Control.remove.key, .string label), (Segment.wrapperKey, v)])

namespace Wraps

variable {v w : Json}

theorem isWrapper (h : Wraps v w) : isWrapper w = true := by
  cases h <;> rfl

theorem cleanWrapped (h : Wraps v w) : cleanWrapped w = clean v := by
  cases h <;> rfl

theorem member? (h : Wraps v w) : w.member? Segment.wrapperKey = some v := by
  cases h <;> rfl

end Wraps

/-- The keys of an object that looks like a list: there are some, and all are digits. -/
def OnlyIndices (members : List (String × Json)) : Prop :=
  members ≠ [] ∧ ∀ m ∈ members, isIndexKey m.1 = true

theorem entries_eq_self {members : List (String × Json)}
    (noLabel : ∀ m ∈ members, isAddLabel m = false) : entries members = members := by
  rw [entries, List.filter_eq_self]
  intro m hm
  rw [noLabel m hm]
  rfl

theorem isIndexed_iff {members : List (String × Json)} (kept : entries members = members) :
    isIndexed members = true ↔ OnlyIndices members := by
  rw [isIndexed, ← entries, kept, Bool.and_eq_true, Bool.not_eq_true',
    List.isEmpty_eq_false_iff, List.all_eq_true]
  rfl

/-- An object that does not look like a list is cleaned entry by entry. -/
theorem clean_named {members : List (String × Json)}
    (noLabel : ∀ m ∈ members, m.1 ≠ Control.addMore.key) (named : ¬OnlyIndices members) :
    clean (.object members) = .object (cleanEntries members) ∧ entries members = members := by
  have kept : entries members = members := entries_eq_self fun m hm => by
    rw [isAddLabel, beq_eq_false_iff_ne.2 (noLabel m hm), Bool.false_and]
  rw [← isIndexed_iff kept, Bool.not_eq_true] at named
  rw [clean, named]
  exact ⟨rfl, kept⟩

/-- A name that a property can have without being taken for an index or for the add control. -/
def isPlainName (name : String) : Bool := !isIndexKey name && name != Control.addMore.key

theorem isPlainName_iff {name : String} :
    isPlainName name = true ↔ isIndexKey name = false ∧ name ≠ Control.addMore.key := by
  simp [isPlainName]

theorem not_onlyIndices_of_plain {members : List (String × Json)}
    (plain : ∀ m ∈ members, isPlainName m.1 = true) : ¬OnlyIndices members := by
  rintro ⟨nonempty, indices⟩
  obtain ⟨m, hm⟩ := List.exists_mem_of_ne_nil members nonempty
  exact Bool.noConfusion ((isPlainName_iff.1 (plain m hm)).1.symm.trans (indices m hm))

theorem clean_plain {members : List (String × Json)}
    (plain : ∀ m ∈ members, isPlainName m.1 = true) :
    clean (.object members) = .object (cleanEntries members) ∧ entries members = members :=
  clean_named (fun m hm => (isPlainName_iff.1 (plain m hm)).2) (not_onlyIndices_of_plain plain)

/-- What is entered for an item: its index, its value and the wrapper around that. -/
structure Entered where
  index : Nat
  value : Json
  wrapper : Json

/-- A mapping submits items under their indices, each in a wrapper, with or without the label of
the add control. -/
structure Submits (members : List (String × Json)) (items : List Entered) : Prop where
  keys : (members.map Prod.fst).Nodup
  entries : entries members = items.map fun e => (toString e.index, e.wrapper)
  wrapped : ∀ e ∈ items, Wraps e.value e.wrapper

theorem isIndexKey_toString (n : Nat) : isIndexKey (toString n) = true := by
  have digits : (toString n).toList.all Char.isDigit = true :=
    List.all_eq_true.2 fun c hc => Pointer.isDigit_of_mem_toString hc
  rw [isIndexKey, digits, Bool.and_true, Bool.not_eq_true', List.isEmpty_eq_false_iff]
  exact Pointer.toString_toList_ne_nil n

theorem isAddLabel_toString (n : Nat) (v : Json) : isAddLabel (toString n, v) = false := by
  have other : toString n ≠ Control.addMore.key := by
    intro h
    have digits := isIndexKey_toString n
    rw [h] at digits
    exact absurd digits (by decide)
  rw [isAddLabel, beq_eq_false_iff_ne.2 other, Bool.false_and]

/-- Items that are submitted become a sequence in the order of the submission. -/
theorem Submits.clean_eq {members : List (String × Json)} {items : List Entered}
    (h : Submits members items) (nonempty : items ≠ []) :
    clean (.object members) = .array (dropBlankTail (items.map fun e => clean e.value)) := by
  have indexed : isIndexed members = true := by
    have keys : ((items.map fun e => (toString e.index, e.wrapper)).all fun m =>
        isIndexKey m.1) = true := by
      rw [List.all_map, List.all_eq_true]
      exact fun e _ => isIndexKey_toString e.index
    rw [isIndexed, ← Submission.entries, h.entries]
    rw [keys, Bool.and_true, Bool.not_eq_true', List.isEmpty_eq_false_iff]
    simpa using nonempty
  have wrapped : (members.all fun m => isAddLabel m || isWrapper m.2) = true := by
    rw [List.all_eq_true]
    intro m hm
    cases hl : isAddLabel m with
    | true => rfl
    | false =>
        have inside : m ∈ Submission.entries members := List.mem_filter.2 ⟨hm, by simp [hl]⟩
        rw [h.entries] at inside
        obtain ⟨e, he, rfl⟩ := List.mem_map.1 inside
        exact (h.wrapped e he).isWrapper
  have values : cleanValues true members = items.map fun e => clean e.value := by
    rw [cleanValues_eq, h.entries, List.map_map]
    refine List.map_congr_left ?_
    intro e he
    exact (h.wrapped e he).cleanWrapped
  rw [clean, indexed, if_pos rfl, wrapped]
  exact congrArg (fun values => Json.array (dropBlankTail values)) values

theorem Submits.clean_nil {members : List (String × Json)} (h : Submits members []) :
    clean (.object members) = .object [] := by
  have none : Submission.entries members = [] := h.entries
  have mapping : isIndexed members = false := by
    rw [isIndexed, ← Submission.entries, none]
    rfl
  rw [clean, mapping, cleanEntries_eq, none]
  rfl

theorem Submits.lookup {members : List (String × Json)} {items : List Entered}
    (h : Submits members items) {e : Entered} (he : e ∈ items) :
    members.lookup (toString e.index) = some e.wrapper := by
  refine lookup_of_mem h.keys ?_
  have inside : (toString e.index, e.wrapper) ∈ Submission.entries members :=
    h.entries ▸ List.mem_map.2 ⟨e, he, rfl⟩
  exact (List.mem_filter.1 inside).1

theorem Submits.of_lookup {members : List (String × Json)} {items : List Entered}
    (h : Submits members items) {i : Nat} {w : Json} (hw : members.lookup (toString i) = some w) :
    ∃ e ∈ items, e.index = i ∧ e.wrapper = w := by
  have inside : (toString i, w) ∈ Submission.entries members :=
    List.mem_filter.2 ⟨mem_of_lookup hw, by rw [isAddLabel_toString]; rfl⟩
  rw [h.entries] at inside
  obtain ⟨e, he, heq⟩ := List.mem_map.1 inside
  obtain ⟨hkey, rfl⟩ := Prod.mk.inj heq
  exact ⟨e, he, Pointer.toString_injective hkey, rfl⟩

/-- An entry at a place of the submission was entered as the item of that place. -/
theorem Submits.of_place {members : List (String × Json)} {items : List Entered}
    (h : Submits members items) {place : Nat} {key : String} {u w : Json}
    (held : (Submission.entries members)[place]? = some (key, w)) (wraps : Wraps u w) :
    ∃ e, items[place]? = some e ∧ key = toString e.index ∧ e.wrapper = w ∧ e.value = u := by
  rw [h.entries, List.getElem?_map] at held
  obtain ⟨e, he, heq⟩ := Option.map_eq_some_iff.1 held
  obtain ⟨rfl, rfl⟩ := Prod.mk.inj heq
  have same := (h.wrapped e (List.mem_of_getElem? he)).member?
  rw [wraps.member?] at same
  exact ⟨e, he, rfl, rfl, (Option.some.inj same).symm⟩

end FormTree.Submission
