import FormTree.Proofs.Repeat.Records
import Mathlib.Logic.Relation

/-!
What a compilation does to the table: it makes records for fields that have
none. Known fields keep their items and their marks, and the records stay in
order.
-/

namespace FormTree
namespace RepeatTable

/-- One record is made sure of, for a number of items that fits 64 bits. -/
inductive Ensures (t : RepeatTable) : RepeatTable → Prop
  | ensure {k : FieldKey} {count : Nat} (fits : count ≤ maxIndex) (location : Path) :
      Ensures t (t.ensure k count location)

abbrev Ensured : RepeatTable → RepeatTable → Prop := Relation.ReflTransGen Ensures

/-- The known fields of a table have the same items and marks in another. -/
def Grows (t u : RepeatTable) : Prop :=
  ∀ k s, t.find? k = some s →
    ∃ s', u.find? k = some s' ∧ s'.indices = s.indices ∧ s'.nextIndex = s.nextIndex

theorem find?_ensure (t : RepeatTable) (k : FieldKey) (count : Nat) (location : Path)
    (j : FieldKey) :
    (t.ensure k count location).find? j =
      if j = k then some (t.ensured k count location) else t.find? j :=
  find?_insert ..

theorem grows_refl (t : RepeatTable) : t.Grows t := fun _ s h => ⟨s, h, rfl, rfl⟩

theorem Grows.trans {t u v : RepeatTable} (first : t.Grows u) (second : u.Grows v) :
    t.Grows v := by
  intro k s h
  obtain ⟨s', h', indices, mark⟩ := first k s h
  obtain ⟨s'', h'', indices', mark'⟩ := second k s' h'
  exact ⟨s'', h'', indices'.trans indices, mark'.trans mark⟩

theorem grows_ensure (t : RepeatTable) (k : FieldKey) (count : Nat) (location : Path) :
    t.Grows (t.ensure k count location) := by
  intro j s hs
  rw [find?_ensure]
  split
  · next hj =>
    subst hj
    refine ⟨_, rfl, ?_, ?_⟩ <;> rw [ensured, hs, Option.getD_some]
  · exact ⟨s, hs, rfl, rfl⟩

theorem Ensures.grows {t u : RepeatTable} (h : t.Ensures u) : t.Grows u := by
  cases h with
  | ensure _ location => exact grows_ensure t _ _ location

theorem Ensured.grows {t u : RepeatTable} (h : t.Ensured u) : t.Grows u := by
  induction h with
  | refl => exact grows_refl t
  | tail _ step ih => exact ih.trans step.grows

theorem Grows.indices {t u : RepeatTable} (h : t.Grows u) {k : FieldKey}
    (known : (t.find? k).isSome = true) : u.indices k = t.indices k := by
  obtain ⟨s, hs⟩ := Option.isSome_iff_exists.1 known
  obtain ⟨s', hs', same, -⟩ := h k s hs
  simp only [RepeatTable.indices, hs, hs', Option.map_some, Option.getD_some, same]

theorem inOrder_ensured {t : RepeatTable} (ht : t.InOrder) {count : Nat} (fits : count ≤ maxIndex)
    (k : FieldKey) (location : Path) : (t.ensured k count location).InOrder := by
  rw [ensured]
  cases hs : t.find? k with
  | none => exact (LiveItems.inOrder_ofCount fits []).moved location
  | some s => exact (record_of_find? hs ▸ ht k).moved location

theorem Ensures.inOrder {t u : RepeatTable} (h : t.Ensures u) (ht : t.InOrder) : u.InOrder := by
  cases h with
  | ensure fits location =>
      intro j
      rw [record_ensure]
      split
      · exact inOrder_ensured ht fits _ location
      · exact ht j

theorem Ensured.inOrder {t u : RepeatTable} (h : t.Ensured u) (ht : t.InOrder) : u.InOrder := by
  induction h with
  | refl => exact ht
  | tail _ step ih => exact step.inOrder ih

end RepeatTable
end FormTree
