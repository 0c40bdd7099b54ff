/-!
Entries under keys, in the order in which the keys first came. A later value
of a key takes the place of the earlier one.
-/

namespace FormTree.Entries

variable {β : Type}

/-- Puts an entry at the end, or in the place of an earlier one of its key. -/
def put (key : String) (value : β) : List (String × β) → List (String × β)
  | [] => [(key, value)]
  | (k, v) :: rest => if k = key then (k, value) :: rest else (k, v) :: put key value rest

def ofList (entries : List (String × β)) : List (String × β) :=
  entries.foldl (fun acc e => put e.1 e.2 acc) []

theorem lookup_put_self (key : String) (value : β) (entries : List (String × β)) :
    (put key value entries).lookup key = some value := by
  induction entries with
  | nil => simp [put]
  | cons e rest ih =>
    obtain ⟨k, v⟩ := e
    simp only [put]
    split
    · next h => simp [h]
    · next h =>
      have hk : (key == k) = false := by simpa using fun h' => h h'.symm
      simp [List.lookup_cons, hk, ih]

theorem lookup_put_of_ne {key other : String} (h : other ≠ key) (value : β)
    (entries : List (String × β)) :
    (put key value entries).lookup other = entries.lookup other := by
  have ho : (other == key) = false := by simpa using h
  induction entries with
  | nil => simp [put, List.lookup_cons, ho]
  | cons e rest ih =>
    obtain ⟨k, v⟩ := e
    simp only [put]
    split
    · next hk => subst hk; simp [List.lookup_cons, ho]
    · simp [List.lookup_cons, ih]

theorem keys_put (key : String) (value : β) (entries : List (String × β)) :
    (put key value entries).map Prod.fst =
      if key ∈ entries.map Prod.fst then entries.map Prod.fst
      else entries.map Prod.fst ++ [key] := by
  induction entries with
  | nil => rfl
  | cons e rest ih =>
    obtain ⟨k, v⟩ := e
    rw [put]
    split
    · next h => simp [h]
    · next h =>
      have hk : key ≠ k := fun e => h e.symm
      rw [List.map_cons, ih, List.map_cons]
      simp only [List.mem_cons, hk, false_or]
      split <;> rfl

theorem put_of_not_mem {key : String} {entries : List (String × β)}
    (new : key ∉ entries.map Prod.fst) (value : β) :
    put key value entries = entries ++ [(key, value)] := by
  induction entries with
  | nil => rfl
  | cons e rest ih =>
    obtain ⟨k, v⟩ := e
    rw [List.map_cons, List.mem_cons, not_or] at new
    rw [put, if_neg fun same => new.1 same.symm, ih new.2]
    rfl

private theorem foldl_put {entries acc : List (String × β)}
    (nodup : ((acc ++ entries).map Prod.fst).Nodup) :
    entries.foldl (fun acc e => put e.1 e.2 acc) acc = acc ++ entries := by
  induction entries generalizing acc with
  | nil => rw [List.append_nil]; rfl
  | cons e rest ih =>
    rw [List.append_cons] at nodup ⊢
    have new : e.1 ∉ acc.map Prod.fst := by
      rw [List.map_append, List.map_append, List.nodup_append, List.nodup_append] at nodup
      exact fun old => nodup.1.2.2 _ old _ (by simp) rfl
    rw [List.foldl_cons, put_of_not_mem new, ih nodup]

/-- Entries with different keys stay as they are. -/
theorem ofList_eq_self {entries : List (String × β)} (nodup : (entries.map Prod.fst).Nodup) :
    ofList entries = entries :=
  foldl_put nodup

private theorem keys_foldl (entries acc : List (String × β)) :
    (entries.foldl (fun acc e => put e.1 e.2 acc) acc).map Prod.fst =
      acc.map Prod.fst ++
        ((entries.map Prod.fst).filter fun k => !(acc.map Prod.fst).contains k).eraseDups := by
  induction entries generalizing acc with
  | nil => simp
  | cons e rest ih =>
    obtain ⟨key, value⟩ := e
    rw [List.foldl_cons, ih, keys_put, List.map_cons]
    split
    · next h => rw [List.filter_cons_of_neg (by simpa using h)]
    · next h =>
      rw [List.filter_cons_of_pos (by simpa using h), List.eraseDups_cons, List.filter_filter,
        List.append_assoc, List.singleton_append]
      congr 3
      refine List.filter_congr fun k _ => ?_
      rw [Bool.eq_iff_iff]
      simp [and_comm]

/-- The keys come once each, in their first order. -/
theorem keys_ofList (entries : List (String × β)) :
    (ofList entries).map Prod.fst = (entries.map Prod.fst).eraseDups := by
  have all : (entries.map Prod.fst).filter (fun k => !([] : List String).contains k) =
      entries.map Prod.fst := List.filter_eq_self.2 fun _ _ => rfl
  rw [ofList, keys_foldl, List.map_nil, all, List.nil_append]

theorem nodup_keys_put {key : String} {value : β} {entries : List (String × β)}
    (nodup : (entries.map Prod.fst).Nodup) : ((put key value entries).map Prod.fst).Nodup := by
  rw [keys_put]
  split
  · exact nodup
  · next new =>
    refine List.nodup_append.2 ⟨nodup, by simp, fun k hk k' hk' same => ?_⟩
    cases List.mem_singleton.1 hk'
    exact new (same ▸ hk)

/-- The entries of a list with another one put in are its own, but for the new value. -/
theorem mem_put {key : String} {value : β} {entries : List (String × β)} {e : String × β}
    (h : e ∈ put key value entries) : e.2 = value ∨ e ∈ entries := by
  induction entries with
  | nil =>
    cases List.mem_singleton.1 h
    exact .inl rfl
  | cons d rest ih =>
    obtain ⟨k, v⟩ := d
    rw [put] at h
    split at h
    · rcases List.mem_cons.1 h with rfl | h
      · exact .inl rfl
      · exact .inr (List.mem_cons_of_mem _ h)
    · rcases List.mem_cons.1 h with rfl | h
      · exact .inr List.mem_cons_self
      · exact (ih h).imp_right (List.mem_cons_of_mem _)

private theorem nodup_keys_foldl (entries : List (String × β)) {acc : List (String × β)}
    (nodup : (acc.map Prod.fst).Nodup) :
    ((entries.foldl (fun acc e => put e.1 e.2 acc) acc).map Prod.fst).Nodup := by
  induction entries generalizing acc with
  | nil => exact nodup
  | cons e rest ih => exact ih (nodup_keys_put nodup)

theorem nodup_keys_ofList (entries : List (String × β)) :
    ((ofList entries).map Prod.fst).Nodup :=
  nodup_keys_foldl entries (by simp)

end FormTree.Entries
