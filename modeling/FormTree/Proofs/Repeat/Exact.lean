import FormTree.Proofs.Repeat.Records

/-!
What the operations on an ordered record come to. The search by halving finds
just the items in use, the last index is the greatest, a removal takes one index
out, and an addition gives the mark away. No other field is touched.
-/

namespace FormTree
namespace LiveItems

theorem contains_eq {s : LiveItems} (h : s.InOrder) (i : Nat) :
    s.contains i = decide (i ∈ s.indices) := by
  rw [contains, Bool.eq_iff_iff, decide_eq_true_iff, Option.isSome_iff_ne_none, ne_eq,
    search?_eq_none_iff h.ascending, not_not]

theorem max?_eq {s : LiveItems} (h : s.InOrder) : s.max? = s.indices.max? := by
  rw [max?]
  cases hm : s.indices.getLast? with
  | none =>
      rw [List.getLast?_eq_none_iff.1 hm]
      rfl
  | some m =>
      refine (List.max?_eq_some_iff.2 ⟨List.mem_of_getLast? hm, ?_⟩).symm
      obtain ⟨front, hfront⟩ := List.getLast?_eq_some_iff.1 hm
      have ascending := h.ascending
      rw [hfront, List.pairwise_append] at ascending
      intro i hi
      rw [hfront] at hi
      rcases List.mem_append.1 hi with hi | hi
      · exact Nat.le_of_lt (ascending.2.2 i hi m (List.mem_singleton_self m))
      · exact Nat.le_of_eq (List.mem_singleton.1 hi)

end LiveItems

namespace RepeatTable

/-- The mark of a field, below which its indices have been given away. -/
def mark (t : RepeatTable) (k : FieldKey) : Nat := ((t.find? k).map LiveItems.nextIndex).getD 0

/-- The operations on a field do what they would do on a plain list of its indices. -/
structure Exact (t : RepeatTable) (k : FieldKey) : Prop where
  ascending : (t.indices k).Pairwise (· < ·)
  below : ∀ i ∈ t.indices k, i < t.mark k ∧ i ≠ maxIndex
  contains : ∀ i, (t.record k).contains i = decide (i ∈ t.indices k)
  max? : (t.record k).max? = (t.indices k).max?
  removes : ∀ i, (t.remove k i).1 = decide (i ∈ t.indices k)
  removed : ∀ i j, (t.remove k i).2.find? j =
    if j = k then (t.find? k).map fun s => { s with indices := s.indices.filter (· ≠ i) }
    else t.find? j
  adds : (t.add? k).map Prod.fst = if t.mark k = maxIndex then none else some (t.mark k)
  added : ∀ i t', t.add? k = some (i, t') → ∀ j, t'.find? j =
    if j = k then
      some { t.record k with indices := t.indices k ++ [t.mark k], nextIndex := t.mark k + 1 }
    else t.find? j

theorem mark_eq (t : RepeatTable) (k : FieldKey) : t.mark k = (t.record k).nextIndex := by
  rw [mark, record]
  cases t.find? k <;> rfl

private theorem find?_removed {t : RepeatTable} (ht : t.InOrder) (k : FieldKey) (i : Nat)
    (j : FieldKey) : (t.remove k i).2.find? j =
      if j = k then (t.find? k).map fun s => { s with indices := s.indices.filter (· ≠ i) }
      else t.find? j := by
  by_cases hi : i ∈ t.indices k
  · obtain ⟨s, known, hi⟩ := exists_of_mem_indices hi
    have inOrder : s.InOrder := record_of_find? known ▸ ht k
    have erased : s.indices.erase i = s.indices.filter (· ≠ i) := by
      rw [inOrder.nodup.erase_eq_filter]
      exact List.filter_congr fun j _ => by simp [bne, beq_eq_decide]
    rw [find?_remove known inOrder hi, erased, known, Option.map_some]
  · have same : (t.find? k).map (fun s => { s with indices := s.indices.filter (· ≠ i) }) =
        t.find? k := by
      cases known : t.find? k with
      | none => rfl
      | some s =>
          rw [indices_of_find? known] at hi
          have kept : s.indices.filter (· ≠ i) = s.indices :=
            List.filter_eq_self.2 fun j hj => decide_eq_true fun h => hi (h ▸ hj)
          rw [Option.map_some, kept]
    rw [remove_of_not_mem ht hi, same]
    split
    · next hj => exact hj ▸ rfl
    · rfl

private theorem index_added {t : RepeatTable} (ht : t.InOrder) (k : FieldKey) :
    (t.add? k).map Prod.fst = if t.mark k = maxIndex then none else some (t.mark k) := by
  have fits := (ht k).fits
  rw [add?, Option.map_map, mark_eq, add_fst ht]
  by_cases left : (t.record k).nextIndex < maxIndex
  · rw [if_pos left, if_neg (Nat.ne_of_lt left)]
    rfl
  · rw [if_neg left, if_pos (Nat.le_antisymm fits (Nat.not_lt.1 left))]
    rfl

theorem exact_of_inOrder {t : RepeatTable} (ht : t.InOrder) (k : FieldKey) : t.Exact k := by
  have inOrder := ht k
  constructor
  · rw [indices_eq]
    exact inOrder.ascending
  · intro i hi
    rw [indices_eq] at hi
    rw [mark_eq]
    have below := inOrder.below i hi
    have fits := inOrder.fits
    omega
  · rw [indices_eq]
    exact LiveItems.contains_eq inOrder
  · rw [indices_eq]
    exact LiveItems.max?_eq inOrder
  · intro i
    rw [indices_eq, Bool.eq_iff_iff, decide_eq_true_iff]
    exact (record_remove ht k i k).1
  · exact find?_removed ht k
  · exact index_added ht k
  · intro i t' h j
    obtain ⟨rfl, -, rfl⟩ := eq_of_add? inOrder h
    rw [mark_eq, indices_eq]
    exact find?_insert ..

end RepeatTable
end FormTree
