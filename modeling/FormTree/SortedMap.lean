/-!
Finite maps kept as their entries in ascending order of keys, so that equal
maps are the same list. Insertion and removal change the value of one key and
of no other.
-/

namespace FormTree

/-- Entries in strictly ascending order of their keys. -/
structure SortedMap (α β : Type) [Ord α] where
  entries : List (α × β)
  ascending : entries.Pairwise fun a b => compare a.1 b.1 = .lt

namespace SortedMap

variable {α β : Type} [Ord α]

def empty : SortedMap α β := ⟨[], .nil⟩

instance : Inhabited (SortedMap α β) := ⟨empty⟩

@[ext]
theorem ext {m n : SortedMap α β} (h : m.entries = n.entries) : m = n := by
  cases m; cases n; cases h; rfl

instance [DecidableEq α] [DecidableEq β] : DecidableEq (SortedMap α β) := fun m n =>
  decidable_of_iff (m.entries = n.entries) ⟨ext, fun h => h ▸ rfl⟩

def size (m : SortedMap α β) : Nat := m.entries.length

def isEmpty (m : SortedMap α β) : Bool := m.entries.isEmpty

def findIn? [DecidableEq α] (k : α) : List (α × β) → Option β
  | [] => none
  | (l, v) :: rest => if l = k then some v else findIn? k rest

def find? [DecidableEq α] (m : SortedMap α β) (k : α) : Option β := findIn? k m.entries

/-- Puts an entry before the first greater key, in the place of an equal one. -/
def insertIn (k : α) (v : β) : List (α × β) → List (α × β)
  | [] => [(k, v)]
  | (l, w) :: rest =>
    match compare k l with
    | .lt => (k, v) :: (l, w) :: rest
    | .eq => (k, v) :: rest
    | .gt => (l, w) :: insertIn k v rest

theorem mem_insertIn {k : α} {v : β} {entries : List (α × β)} {e : α × β}
    (h : e ∈ insertIn k v entries) : e = (k, v) ∨ e ∈ entries := by
  induction entries with
  | nil => simpa [insertIn] using h
  | cons d rest ih =>
    obtain ⟨l, w⟩ := d
    simp only [insertIn] at h
    split at h
    · simpa using h
    · rcases List.mem_cons.1 h with h | h
      · exact .inl h
      · exact .inr (List.mem_cons_of_mem _ h)
    · rcases List.mem_cons.1 h with h | h
      · exact .inr (h ▸ List.mem_cons_self)
      · exact (ih h).imp_right (List.mem_cons_of_mem _)

theorem insertIn_ascending [Std.TransOrd α] [Std.LawfulEqOrd α] (k : α) (v : β)
    {entries : List (α × β)} (h : entries.Pairwise fun a b => compare a.1 b.1 = .lt) :
    (insertIn k v entries).Pairwise fun a b => compare a.1 b.1 = .lt := by
  induction entries with
  | nil => simp [insertIn]
  | cons d rest ih =>
    obtain ⟨l, w⟩ := d
    rw [List.pairwise_cons] at h
    simp only [insertIn]
    split
    · next hk =>
      refine List.pairwise_cons.2 ⟨fun e he => ?_, List.pairwise_cons.2 h⟩
      rcases List.mem_cons.1 he with rfl | he
      · exact hk
      · exact Std.TransCmp.lt_trans hk (h.1 e he)
    · next hk =>
      have hl : k = l := Std.LawfulEqCmp.eq_of_compare hk
      exact List.pairwise_cons.2 ⟨fun e he => hl ▸ h.1 e he, h.2⟩
    · next hk =>
      refine List.pairwise_cons.2 ⟨fun e he => ?_, ih h.2⟩
      rcases mem_insertIn he with rfl | he
      · exact Std.OrientedCmp.lt_of_gt hk
      · exact h.1 e he

def insert [Std.TransOrd α] [Std.LawfulEqOrd α] (m : SortedMap α β) (k : α) (v : β) :
    SortedMap α β :=
  ⟨insertIn k v m.entries, insertIn_ascending k v m.ascending⟩

def erase [DecidableEq α] (m : SortedMap α β) (k : α) : SortedMap α β :=
  ⟨m.entries.filter fun e => decide (e.1 ≠ k), m.ascending.filter _⟩

def ofList [Std.TransOrd α] [Std.LawfulEqOrd α] (entries : List (α × β)) : SortedMap α β :=
  entries.foldl (fun m e => m.insert e.1 e.2) empty

section Lookup

variable [DecidableEq α]

theorem find?_insert_self [Std.TransOrd α] [Std.LawfulEqOrd α] (m : SortedMap α β) (k : α)
    (v : β) : (m.insert k v).find? k = some v := by
  obtain ⟨entries, _⟩ := m
  simp only [insert, find?]
  induction entries with
  | nil => simp [insertIn, findIn?]
  | cons d rest ih =>
    obtain ⟨l, w⟩ := d
    simp only [insertIn]
    split
    · simp [findIn?]
    · simp [findIn?]
    · next hk =>
      have hl : l ≠ k := by
        rintro rfl
        have he : compare l l = .eq := Std.ReflCmp.compare_self
        exact absurd (he.symm.trans hk) (by decide)
      simpa [findIn?, hl] using ih (List.Pairwise.of_cons ‹_›)

theorem find?_insert_of_ne [Std.TransOrd α] [Std.LawfulEqOrd α] (m : SortedMap α β) {k j : α}
    (v : β) (h : j ≠ k) : (m.insert k v).find? j = m.find? j := by
  obtain ⟨entries, _⟩ := m
  simp only [insert, find?]
  induction entries with
  | nil => simp [insertIn, findIn?, h.symm]
  | cons d rest ih =>
    obtain ⟨l, w⟩ := d
    simp only [insertIn]
    split
    · simp [findIn?, h.symm]
    · next hk =>
      have hl : k = l := Std.LawfulEqCmp.eq_of_compare hk
      subst hl
      simp [findIn?, h.symm]
    · by_cases hj : l = j
      · simp [findIn?, hj]
      · simpa [findIn?, hj] using ih (List.Pairwise.of_cons ‹_›)

theorem find?_erase_self (m : SortedMap α β) (k : α) : (m.erase k).find? k = none := by
  obtain ⟨entries, _⟩ := m
  simp only [erase, find?]
  induction entries with
  | nil => rfl
  | cons d rest ih =>
    obtain ⟨l, w⟩ := d
    by_cases hl : l = k
    · simpa [hl] using ih (List.Pairwise.of_cons ‹_›)
    · simpa [hl, findIn?] using ih (List.Pairwise.of_cons ‹_›)

theorem find?_erase_of_ne (m : SortedMap α β) {k j : α} (h : j ≠ k) :
    (m.erase k).find? j = m.find? j := by
  obtain ⟨entries, _⟩ := m
  simp only [erase, find?]
  induction entries with
  | nil => rfl
  | cons d rest ih =>
    obtain ⟨l, w⟩ := d
    by_cases hl : l = k
    · simpa [hl, findIn?, h.symm] using ih (List.Pairwise.of_cons ‹_›)
    · by_cases hj : l = j
      · simp [hj, h, findIn?]
      · simpa [hl, hj, findIn?] using ih (List.Pairwise.of_cons ‹_›)

end Lookup

end SortedMap
end FormTree
