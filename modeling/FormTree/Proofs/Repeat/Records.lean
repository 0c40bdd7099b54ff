import FormTree.Proofs.SortedMap
import FormTree.Repeat.Table
import Mathlib.Data.List.Nodup

/-!
The order of the records of repeated fields. Indices in use ascend strictly and
stay below the mark, and the mark fits 64 bits. Every operation keeps this order,
and in ordered records the search by halving is membership.
-/

namespace FormTree
namespace LiveItems

structure InOrder (s : LiveItems) : Prop where
  ascending : s.indices.Pairwise (· < ·)
  below : ∀ i ∈ s.indices, i < s.nextIndex
  fits : s.nextIndex ≤ maxIndex

instance (s : LiveItems) : Decidable s.InOrder :=
  decidable_of_iff (s.indices.Pairwise (· < ·) ∧ (∀ i ∈ s.indices, i < s.nextIndex) ∧
      s.nextIndex ≤ maxIndex)
    ⟨fun h => ⟨h.1, h.2.1, h.2.2⟩, fun h => ⟨h.ascending, h.below, h.fits⟩⟩

theorem InOrder.nodup {s : LiveItems} (h : s.InOrder) : s.indices.Nodup :=
  h.ascending.imp Nat.ne_of_lt

theorem inOrder_empty : empty.InOrder :=
  ⟨.nil, by simp [empty], Nat.zero_le _⟩

theorem inOrder_ofCount {count : Nat} (h : count ≤ maxIndex) (location : Path) :
    (ofCount count location).InOrder :=
  ⟨List.pairwise_lt_range, by simp [ofCount], h⟩

/-- An item in use lies between the ends of the search for it, whichever half
is dropped. -/
theorem searchFrom_eq {indices : List Nat} (h : indices.Pairwise (· < ·)) {i place : Nat}
    (hp : indices[place]? = some i) (base size : Nat) (hb : base ≤ place)
    (hs : place < base + size) (hl : base + size ≤ indices.length) :
    searchFrom indices i base size = place := by
  induction size using Nat.strongRecOn generalizing base with
  | _ size ih =>
      rw [searchFrom]
      split
      · next hsize =>
        have hmid : base + size / 2 < indices.length := by omega
        have hplace : place < indices.length := by omega
        rw [List.getElem?_eq_getElem hplace, Option.some_inj] at hp
        have order := List.pairwise_iff_getElem.1 h
        simp only [List.getD_eq_getElem?_getD, List.getElem?_eq_getElem hmid, Option.getD_some]
        split
        · next hlt =>
          have before : place < base + size / 2 := by
            rcases Nat.lt_trichotomy place (base + size / 2) with hlt' | heq | hgt
            · exact hlt'
            · subst heq; omega
            · have := order _ _ hmid hplace hgt; omega
          exact ih _ (by omega) _ hb (by omega) (by omega)
        · next hge =>
          have after : base + size / 2 ≤ place := by
            rcases Nat.lt_or_ge place (base + size / 2) with hlt' | hge'
            · have := order _ _ hplace hmid hlt'; omega
            · exact hge'
          exact ih _ (by omega) _ after (by omega) (by omega)
      · omega

theorem search?_eq_some_iff {indices : List Nat} (h : indices.Pairwise (· < ·)) (i place : Nat) :
    search? indices i = some place ↔ indices[place]? = some i := by
  constructor
  · intro hs
    simp only [search?] at hs
    split at hs
    · next hp => rwa [Option.some_inj.1 hs] at hp
    · cases hs
  · intro hp
    obtain ⟨hlt, _⟩ := List.getElem?_eq_some_iff.1 hp
    have found : searchFrom indices i 0 indices.length = place :=
      searchFrom_eq h hp 0 indices.length (Nat.zero_le _) (by omega) (by omega)
    simp only [search?, found, hp, ite_true]

theorem search?_eq_none_iff {indices : List Nat} (h : indices.Pairwise (· < ·)) (i : Nat) :
    search? indices i = none ↔ i ∉ indices := by
  rw [Option.eq_none_iff_forall_ne_some, List.mem_iff_getElem?, not_exists]
  exact forall_congr' fun place => not_congr (search?_eq_some_iff h i place)

/-- Removal takes exactly one index out and keeps the order of the rest. -/
theorem remove?_eq {s : LiveItems} (h : s.InOrder) (i : Nat) :
    s.remove? i =
      if i ∈ s.indices then some { s with indices := s.indices.erase i } else none := by
  split
  · next hi =>
    obtain ⟨place, hp⟩ := List.mem_iff_getElem?.1 hi
    obtain ⟨hlt, hget⟩ := List.getElem?_eq_some_iff.1 hp
    have first : s.indices.idxOf i = place := by
      rw [← hget]; exact h.nodup.idxOf_getElem place hlt
    rw [remove?, (search?_eq_some_iff h.ascending i place).2 hp, Option.map_some,
      List.erase_eq_eraseIdx_of_idxOf first]
  · next hi => rw [remove?, (search?_eq_none_iff h.ascending i).2 hi, Option.map_none]

theorem InOrder.erase {s : LiveItems} (h : s.InOrder) (i : Nat) :
    ({ s with indices := s.indices.erase i } : LiveItems).InOrder :=
  ⟨h.ascending.sublist List.erase_sublist, fun j hj => h.below j (List.mem_of_mem_erase hj),
    h.fits⟩

/-- In an ordered record the mark is the next index, until none is left. -/
theorem add_eq {s : LiveItems} (h : s.InOrder) :
    s.add =
      if s.nextIndex < maxIndex then
        (some s.nextIndex,
          { s with indices := s.indices ++ [s.nextIndex], nextIndex := s.nextIndex + 1 })
      else (none, s) := by
  have floor : ∃ f ≤ s.nextIndex, s.floor? = some f := by
    cases hm : s.max? with
    | none => exact ⟨0, Nat.zero_le _, by simp [floor?, hm]⟩
    | some m =>
        have hlt := h.below m (List.mem_of_getLast? hm)
        have := h.fits
        exact ⟨m + 1, hlt, by simp only [floor?, hm]; rw [if_pos (by omega)]⟩
  obtain ⟨f, hf, hfloor⟩ := floor
  simp only [add, hfloor, Nat.max_eq_right hf]

theorem add?_eq {s : LiveItems} (h : s.InOrder) :
    s.add? =
      if s.nextIndex < maxIndex then
        some (s.nextIndex,
          { s with indices := s.indices ++ [s.nextIndex], nextIndex := s.nextIndex + 1 })
      else none := by
  rw [add?, add_eq h]
  split <;> rfl

/-- An addition gives nothing away and changes nothing, or puts the index that it gives away after
the others. -/
theorem add_cases (s : LiveItems) : s.add = (none, s) ∨
    ∃ i, s.add = (some i, { s with indices := s.indices ++ [i], nextIndex := i + 1 }) := by
  cases floor : s.floor? with
  | none => exact .inl (by rw [add, floor])
  | some least =>
      rw [add, floor]
      by_cases left : max least s.nextIndex < maxIndex
      · exact .inr ⟨_, if_pos left⟩
      · exact .inl (if_neg left)

theorem InOrder.add {s : LiveItems} (h : s.InOrder) (hlt : s.nextIndex < maxIndex) :
    ({ s with indices := s.indices ++ [s.nextIndex], nextIndex := s.nextIndex + 1 } :
      LiveItems).InOrder := by
  refine ⟨List.pairwise_append.2 ⟨h.ascending, List.pairwise_singleton _ _, ?_⟩, ?_, hlt⟩
  · intro i hi j hj
    rw [List.mem_singleton.1 hj]
    exact h.below i hi
  · intro i hi
    rcases List.mem_append.1 hi with hi | hi
    · exact Nat.lt_succ_of_lt (h.below i hi)
    · rw [List.mem_singleton.1 hi]; exact Nat.lt_succ_self _

theorem InOrder.moved {s : LiveItems} (h : s.InOrder) (location : Path) :
    ({ s with location } : LiveItems).InOrder := ⟨h.ascending, h.below, h.fits⟩

private theorem nodup_eraseDups (l : List Nat) : l.eraseDups.Nodup := by
  induction hn : l.length using Nat.strongRecOn generalizing l with
  | _ n ih =>
      cases l with
      | nil => simp
      | cons a l =>
          rw [List.eraseDups_cons, List.nodup_cons, List.mem_eraseDups]
          refine ⟨by simp, ih _ ?_ _ rfl⟩
          have := List.length_filter_le (fun b => !b == a) l
          rw [List.length_cons] at hn
          omega

private theorem eraseDups_of_nodup {l : List Nat} (h : l.Nodup) : l.eraseDups = l := by
  induction l with
  | nil => rfl
  | cons a l ih =>
      rw [List.nodup_cons] at h
      have kept : l.filter (fun b => !b == a) = l := by
        rw [List.filter_eq_self]
        intro b hb
        have : b ≠ a := fun e => h.1 (e ▸ hb)
        simpa using this
      rw [List.eraseDups_cons, kept, ih h.2]

private theorem ascending_mergeSort (l : List Nat) :
    (l.mergeSort fun a b => decide (a ≤ b)).Pairwise (· ≤ ·) := by
  refine (List.pairwise_mergeSort ?_ ?_ _).imp (by simp) <;> simp <;> omega

theorem mem_normalized {s : LiveItems} {i : Nat} :
    i ∈ s.normalized.indices ↔ i ∈ s.indices ∧ i < maxIndex := by
  simp only [normalized, List.mem_mergeSort, List.mem_eraseDups, List.mem_filter,
    decide_eq_true_eq]

/-- Whatever was stored, a record is in order once it is normalized. -/
theorem inOrder_normalized {s : LiveItems} (h : s.nextIndex ≤ maxIndex) :
    s.normalized.InOrder := by
  have ascending : s.normalized.indices.Pairwise (· < ·) := by
    have sorted : s.normalized.indices.Pairwise (· ≤ ·) := ascending_mergeSort _
    have nodup : s.normalized.indices.Nodup :=
      (List.mergeSort_perm _ _).nodup_iff.2 (nodup_eraseDups _)
    exact sorted.imp₂ (fun _ _ => Nat.lt_of_le_of_ne) nodup
  refine ⟨ascending, ?_, ?_⟩
  · intro i hi
    obtain ⟨m, hm⟩ := Option.isSome_iff_exists.1
      (List.getLast?_isSome.2 (List.ne_nil_of_mem hi))
    have hle : i ≤ m := by
      obtain ⟨front, hfront⟩ := List.getLast?_eq_some_iff.1 hm
      rw [hfront, List.pairwise_append] at ascending
      rw [hfront] at hi
      rcases List.mem_append.1 hi with hi | hi
      · exact Nat.le_of_lt (ascending.2.2 i hi m (List.mem_singleton_self m))
      · exact Nat.le_of_eq (List.mem_singleton.1 hi)
    have mark : m + 1 ≤ s.normalized.nextIndex := by
      change m + 1 ≤ max s.nextIndex ((s.normalized.indices.getLast?.map (· + 1)).getD 0)
      rw [hm]
      exact Nat.le_max_right _ _
    omega
  · change max s.nextIndex ((s.normalized.indices.getLast?.map (· + 1)).getD 0) ≤ maxIndex
    cases hm : s.normalized.indices.getLast? with
    | none => simpa using h
    | some m =>
        have := (mem_normalized.1 (List.mem_of_getLast? hm)).2
        exact Nat.max_le.2 ⟨h, this⟩

/-- Indices that can be in use come out in ascending order, whatever their order was. -/
theorem normalized_of_perm {s : LiveItems} {l : List Nat} (perm : s.indices.Perm l)
    (ascending : l.Pairwise (· < ·)) (below : ∀ i ∈ l, i < maxIndex) :
    s.normalized =
      { s with
        indices := l
        nextIndex := max s.nextIndex ((l.getLast?.map (· + 1)).getD 0) } := by
  have nodup : s.indices.Nodup := perm.nodup_iff.2 (ascending.imp Nat.ne_of_lt)
  have kept : s.indices.filter (fun i => decide (i < maxIndex)) = s.indices := by
    rw [List.filter_eq_self]
    exact fun i hi => decide_eq_true (below i (perm.mem_iff.1 hi))
  have sorted : s.indices.mergeSort (fun a b => decide (a ≤ b)) = l :=
    List.Perm.eq_of_pairwise (fun _ _ _ _ => Nat.le_antisymm) (ascending_mergeSort _)
      (ascending.imp Nat.le_of_lt) ((List.mergeSort_perm _ _).trans perm)
  simp only [normalized, kept, eraseDups_of_nodup nodup, sorted]

theorem normalized_of_inOrder {s : LiveItems} (h : s.InOrder) : s.normalized = s := by
  rw [normalized_of_perm (.refl _) h.ascending fun i hi =>
    Nat.lt_of_lt_of_le (h.below i hi) h.fits]
  have mark : max s.nextIndex ((s.indices.getLast?.map (· + 1)).getD 0) = s.nextIndex := by
    cases hm : s.indices.getLast? with
    | none => simp
    | some m => exact Nat.max_eq_left (h.below m (List.mem_of_getLast? hm))
  rw [mark]

end LiveItems

namespace RepeatTable

/-- The record of a field; a field that is not known has no items. -/
def record (t : RepeatTable) (k : FieldKey) : LiveItems := (t.find? k).getD .empty

/-- Every record of the table is in order. -/
def InOrder (t : RepeatTable) : Prop := ∀ k, (t.record k).InOrder

theorem indices_eq (t : RepeatTable) (k : FieldKey) : t.indices k = (t.record k).indices := by
  rw [indices, record]
  cases t.find? k <;> rfl

theorem record_of_find? {t : RepeatTable} {k : FieldKey} {s : LiveItems}
    (h : t.find? k = some s) : t.record k = s := by rw [record, h, Option.getD_some]

theorem indices_of_find? {t : RepeatTable} {k : FieldKey} {s : LiveItems}
    (h : t.find? k = some s) : t.indices k = s.indices := by
  rw [indices_eq, record_of_find? h]

theorem exists_of_mem_indices {t : RepeatTable} {k : FieldKey} {i : Nat} (h : i ∈ t.indices k) :
    ∃ s, t.find? k = some s ∧ i ∈ s.indices := by
  cases known : t.find? k with
  | none =>
      rw [indices, known] at h
      cases h
  | some s => exact ⟨s, rfl, indices_of_find? known ▸ h⟩

theorem find?_insert (t : RepeatTable) (k : FieldKey) (s : LiveItems) (b : Bool) (j : FieldKey) :
    find? ⟨t.fields.insert k s, b⟩ j = if j = k then some s else t.find? j := by
  split
  · next h => rw [h]; exact SortedMap.find?_insert_self ..
  · next h => exact SortedMap.find?_insert_of_ne _ _ h

private theorem record_insert (t : RepeatTable) (k : FieldKey) (s : LiveItems) (b : Bool)
    (j : FieldKey) :
    record ⟨t.fields.insert k s, b⟩ j = if j = k then s else t.record j := by
  rw [record, find?_insert]
  split
  · rfl
  · rfl

theorem record_ensure (t : RepeatTable) (k : FieldKey) (count : Nat) (location : Path)
    (j : FieldKey) :
    (t.ensure k count location).record j =
      if j = k then t.ensured k count location else t.record j :=
  record_insert ..

theorem record_set (t : RepeatTable) (k : FieldKey) (s : LiveItems) (j : FieldKey) :
    (t.set k s).record j = if j = k then s.normalized else t.record j :=
  record_insert ..

theorem set_of_inOrder (t : RepeatTable) (k : FieldKey) {s : LiveItems} (h : s.InOrder) :
    t.set k s = { t with fields := t.fields.insert k s } := by
  rw [set, LiveItems.normalized_of_inOrder h]

/-- The table of an addition that gives an index away is the one it leaves. -/
theorem add?_eq_some {t t' : RepeatTable} {k : FieldKey} {i : Nat} :
    t.add? k = some (i, t') ↔ t.add k = (some i, t') := by
  rw [add?]
  rcases t.add k with ⟨_ | j, u⟩
  · exact iff_of_false nofun nofun
  · exact ⟨fun h => by cases h; rfl, fun h => by cases h; rfl⟩

theorem add?_eq_some_iff {t t' : RepeatTable} {k : FieldKey} {i : Nat} :
    t.add? k = some (i, t') ↔
      ∃ s, (t.record k).add? = some (i, s) ∧ t' = ⟨t.fields.insert k s, true⟩ := by
  rw [add?_eq_some, add, ← record, LiveItems.add?]
  rcases (t.record k).add with ⟨_ | j, s⟩
  · exact iff_of_false nofun nofun
  · constructor
    · intro h
      cases h
      exact ⟨s, rfl, rfl⟩
    · rintro ⟨s', hs', rfl⟩
      cases hs'
      rfl

/-- An addition gives nothing away and changes nothing, or gives an index to the field and sets the
mark. Only a field that is known refuses, and so its record is put back in its own place. -/
theorem add_cases (t : RepeatTable) (k : FieldKey) : t.add k = (none, t) ∨
    ∃ i, t.add k = (some i, ⟨t.fields.insert k
      { t.record k with indices := t.indices k ++ [i], nextIndex := i + 1 }, true⟩) := by
  rw [add, ← record, indices_eq]
  rcases (t.record k).add_cases with refused | ⟨i, given⟩
  · cases known : t.find? k with
    | none =>
        rw [record, known] at refused
        cases refused
    | some s =>
        rw [record_of_find? known] at refused ⊢
        rw [refused]
        exact .inl (congrArg (none, { t with fields := · }) (SortedMap.insert_eq_self known))
  · rw [given]
    exact .inr ⟨i, rfl⟩

theorem add_refused {t : RepeatTable} {k : FieldKey} (h : (t.add k).1 = none) :
    (t.add k).2 = t := by
  rcases t.add_cases k with refused | ⟨i, given⟩
  · rw [refused]
  · rw [given] at h
    cases h

/-- In an ordered table the mark of the field is given away, until that has come to the end. -/
theorem add_fst {t : RepeatTable} (ht : t.InOrder) (k : FieldKey) :
    (t.add k).1 =
      if (t.record k).nextIndex < maxIndex then some (t.record k).nextIndex else none := by
  rw [add, ← record, LiveItems.add_eq (ht k)]
  by_cases left : (t.record k).nextIndex < maxIndex
  · rw [if_pos left, if_pos left]
  · rw [if_neg left, if_neg left]

/-- Nothing is given away iff the mark has come to the end. -/
theorem add_none_iff {t : RepeatTable} (ht : t.InOrder) (k : FieldKey) :
    (t.add k).1 = none ↔ (t.record k).nextIndex = maxIndex := by
  rw [add_fst ht]
  by_cases left : (t.record k).nextIndex < maxIndex
  · rw [if_pos left]
    exact iff_of_false nofun (Nat.ne_of_lt left)
  · rw [if_neg left]
    exact iff_of_true rfl (Nat.le_antisymm (ht k).fits (Nat.not_lt.1 left))

/-- An addition to an ordered record gives the mark away, and moves it on. -/
theorem eq_of_add? {t t' : RepeatTable} {k : FieldKey} {i : Nat} (inOrder : (t.record k).InOrder)
    (h : t.add? k = some (i, t')) :
    i = (t.record k).nextIndex ∧ i < maxIndex ∧ t' = ⟨t.fields.insert k
      { t.record k with indices := (t.record k).indices ++ [i], nextIndex := i + 1 }, true⟩ := by
  obtain ⟨s, hs, rfl⟩ := add?_eq_some_iff.1 h
  rw [LiveItems.add?_eq inOrder] at hs
  split at hs
  · next hlt =>
    cases hs
    exact ⟨rfl, hlt, rfl⟩
  · cases hs

theorem record_add {t t' : RepeatTable} {k : FieldKey} {i : Nat} (ht : t.InOrder)
    (h : t.add? k = some (i, t')) (j : FieldKey) :
    i = (t.record k).nextIndex ∧ i < maxIndex ∧
      t'.record j =
        if j = k then { t.record k with indices := (t.record k).indices ++ [i], nextIndex := i + 1 }
        else t.record j := by
  obtain ⟨mark, below, rfl⟩ := eq_of_add? (ht k) h
  exact ⟨mark, below, record_insert ..⟩

private theorem bind_remove? (t : RepeatTable) (k : FieldKey) (i : Nat) :
    ((t.find? k).bind fun s => s.remove? i) = (t.record k).remove? i := by
  rw [record]
  cases t.find? k with
  | none => simp [LiveItems.remove?, LiveItems.search?, LiveItems.empty]
  | some s => rfl

theorem record_remove {t : RepeatTable} (ht : t.InOrder) (k : FieldKey) (i : Nat) (j : FieldKey) :
    ((t.remove k i).1 = true ↔ i ∈ (t.record k).indices) ∧
      (t.remove k i).2.record j =
        if j = k then { t.record k with indices := (t.record k).indices.erase i }
        else t.record j := by
  rw [remove, bind_remove?, LiveItems.remove?_eq (ht k) i]
  by_cases hi : i ∈ (t.record k).indices
  · simp only [hi, ite_true, true_and]
    exact record_insert ..
  · simp only [hi, ite_false, Bool.false_eq_true, true_and]
    split
    · next h => rw [h, List.erase_of_not_mem hi]; rfl
    · rfl

theorem find?_add {t t' : RepeatTable} {k : FieldKey} {s : LiveItems} {i : Nat}
    (known : t.find? k = some s) (inOrder : s.InOrder) (h : t.add? k = some (i, t'))
    (j : FieldKey) :
    t'.find? j =
      if j = k then some { s with indices := s.indices ++ [i], nextIndex := i + 1 }
      else t.find? j := by
  obtain ⟨-, -, rfl⟩ := eq_of_add? (by rwa [record_of_find? known]) h
  rw [record_of_find? known]
  exact find?_insert ..

theorem remove_of_find? {t : RepeatTable} {k : FieldKey} {s : LiveItems} {i : Nat}
    (known : t.find? k = some s) (inOrder : s.InOrder) (hi : i ∈ s.indices) :
    t.remove k i =
      (true, ⟨t.fields.insert k { s with indices := s.indices.erase i }, true⟩) := by
  rw [remove, known, Option.bind_some, LiveItems.remove?_eq inOrder, if_pos hi]

theorem remove_of_not_mem {t : RepeatTable} (ht : t.InOrder) {k : FieldKey} {i : Nat}
    (hi : i ∉ t.indices k) : t.remove k i = (false, { t with rebuild := true }) := by
  rw [indices_eq] at hi
  rw [remove, bind_remove?, LiveItems.remove?_eq (ht k), if_neg hi]

theorem find?_remove {t : RepeatTable} {k : FieldKey} {s : LiveItems} {i : Nat}
    (known : t.find? k = some s) (inOrder : s.InOrder) (hi : i ∈ s.indices) (j : FieldKey) :
    (t.remove k i).2.find? j =
      if j = k then some { s with indices := s.indices.erase i } else t.find? j := by
  rw [remove_of_find? known inOrder hi]
  exact find?_insert ..

end RepeatTable
end FormTree
