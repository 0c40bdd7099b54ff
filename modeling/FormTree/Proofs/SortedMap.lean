import FormTree.SortedMap

/-!
Maps and their entries: looking a key up finds its entry, and a map made from a
list holds entries of the list.
-/

namespace FormTree.SortedMap

variable {α β : Type} [Ord α] [Std.TransOrd α]

private theorem insertIn_greater {k : α} {v : β} {entries : List (α × β)}
    (h : ∀ e ∈ entries, compare e.1 k = .lt) : insertIn k v entries = entries ++ [(k, v)] := by
  induction entries with
  | nil => rfl
  | cons e entries ih =>
      obtain ⟨l, w⟩ := e
      have after : compare k l = .gt := Std.OrientedCmp.gt_of_lt (h (l, w) List.mem_cons_self)
      rw [insertIn, after]
      exact congrArg _ (ih fun e he => h e (List.mem_cons_of_mem _ he))

theorem nodup_entries (m : SortedMap α β) : m.entries.Nodup := by
  refine m.ascending.imp ?_
  rintro a b hlt rfl
  have self : compare a.1 a.1 = .eq := Std.ReflCmp.compare_self
  rw [self] at hlt
  cases hlt

theorem find?_eq_some_iff [DecidableEq α] (m : SortedMap α β) {k : α} {v : β} :
    m.find? k = some v ↔ (k, v) ∈ m.entries := by
  obtain ⟨entries, ascending⟩ := m
  change findIn? k entries = some v ↔ (k, v) ∈ entries
  induction entries with
  | nil => simp [findIn?]
  | cons e entries ih =>
      obtain ⟨l, w⟩ := e
      rw [List.pairwise_cons] at ascending
      rw [findIn?, List.mem_cons]
      split
      · next h =>
        subst h
        have absent : (l, v) ∉ entries := fun hv => by
          have hlt : compare l l = .lt := ascending.1 (l, v) hv
          have self : compare l l = .eq := Std.ReflCmp.compare_self
          rw [self] at hlt
          cases hlt
        simp only [Option.some_inj, Prod.mk.injEq, true_and, absent, or_false]
        exact eq_comm
      · next h =>
        rw [ih ascending.2]
        have : ¬k = l := fun hk => h hk.symm
        simp [this]

variable [Std.LawfulEqOrd α]

private theorem foldl_insert_entries (m : SortedMap α β) {entries : List (α × β)}
    (h : (m.entries ++ entries).Pairwise fun a b => compare a.1 b.1 = .lt) :
    (entries.foldl (fun m e => m.insert e.1 e.2) m).entries = m.entries ++ entries := by
  induction entries generalizing m with
  | nil => rw [List.append_nil]; rfl
  | cons e entries ih =>
      have below : ∀ d ∈ m.entries, compare d.1 e.1 = .lt := fun d hd =>
        (List.pairwise_append.1 h).2.2 d hd e List.mem_cons_self
      have inserted : (m.insert e.1 e.2).entries = m.entries ++ [e] := insertIn_greater below
      rw [List.foldl_cons, ih _ (by rw [inserted]; simpa using h), inserted, List.append_assoc]
      rfl

/-- A map is what its own entries leave. -/
theorem ofList_entries (m : SortedMap α β) : ofList m.entries = m :=
  ext (foldl_insert_entries empty m.ascending)

private theorem mem_foldl_insert {m : SortedMap α β} {entries : List (α × β)} {e : α × β}
    (h : e ∈ (entries.foldl (fun m e => m.insert e.1 e.2) m).entries) :
    e ∈ m.entries ∨ e ∈ entries := by
  induction entries generalizing m with
  | nil => exact .inl h
  | cons d entries ih =>
      rcases ih h with h | h
      · rcases mem_insertIn h with rfl | h
        · exact .inr List.mem_cons_self
        · exact .inl h
      · exact .inr (List.mem_cons_of_mem _ h)

theorem mem_of_mem_ofList {entries : List (α × β)} {e : α × β} (h : e ∈ (ofList entries).entries) :
    e ∈ entries := by
  rcases mem_foldl_insert h with h | h
  · cases h
  · exact h

private theorem insertIn_eq_self {k : α} {v : β} {entries : List (α × β)}
    (ascending : entries.Pairwise fun a b => compare a.1 b.1 = .lt) (h : (k, v) ∈ entries) :
    insertIn k v entries = entries := by
  induction entries with
  | nil => cases h
  | cons e entries ih =>
      obtain ⟨l, w⟩ := e
      rw [List.pairwise_cons] at ascending
      rcases List.mem_cons.1 h with h | h
      · cases h
        have self : compare k k = .eq := Std.ReflCmp.compare_self
        rw [insertIn, self]
      · have after : compare k l = .gt := Std.OrientedCmp.gt_of_lt (ascending.1 _ h)
        rw [insertIn, after]
        exact congrArg _ (ih ascending.2 h)

/-- An entry that is there already makes no difference. -/
theorem insert_eq_self [DecidableEq α] {m : SortedMap α β} {k : α} {v : β}
    (h : m.find? k = some v) : m.insert k v = m :=
  ext (insertIn_eq_self m.ascending ((find?_eq_some_iff m).1 h))

private theorem find?_foldl_insert [DecidableEq α] (m : SortedMap α β) (entries : List (α × β))
    (k : α) : (entries.foldl (fun m e => m.insert e.1 e.2) m).find? k =
      (entries.reverse.lookup k).or (m.find? k) := by
  induction entries generalizing m with
  | nil => rfl
  | cons e entries ih =>
      rw [List.foldl_cons, ih, List.reverse_cons, List.lookup_append, Option.or_assoc]
      congr 1
      by_cases h : k = e.1
      · subst h
        rw [find?_insert_self, List.lookup_cons_self]
        rfl
      · have other : (k == e.1) = false := beq_eq_false_iff_ne.2 h
        rw [find?_insert_of_ne m _ h]
        rw [List.lookup_cons, other]
        rfl

/-- The last entry of a key stands. -/
theorem find?_ofList [DecidableEq α] (entries : List (α × β)) (k : α) :
    (ofList entries).find? k = entries.reverse.lookup k := by
  rw [ofList, find?_foldl_insert]
  exact Option.or_none

end FormTree.SortedMap
