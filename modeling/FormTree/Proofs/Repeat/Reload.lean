import FormTree.Proofs.Lookup
import FormTree.Proofs.Repeat.Growth
import FormTree.Proofs.Repeat.Stored

/-!
Tables that can be stored and read back. All numbers in them fit 64 bits, and the
records are in order. What is read is such a table, whatever was stored.
-/

namespace FormTree

/-- The indices in a path fit 64 bits. -/
def Path.Fits (p : Path) : Prop := ∀ n, .index n ∈ p → n ≤ maxIndex

namespace Path.Fits

variable {p q : Path}

theorem nil : Path.Fits [] := by
  intro n hn
  cases hn

theorem of_subset (h : q.Fits) (sub : p ⊆ q) : p.Fits := fun n hn => h n (sub hn)

theorem append (hp : p.Fits) (hq : q.Fits) : (p ++ q).Fits := fun n hn =>
  (List.mem_append.1 hn).elim (hp n) (hq n)

end Path.Fits

section Decoding

theorem isSome_list? {α : Type} {encode : α → Json} {decode : Json → Option α} {l : List α}
    (h : ∀ a ∈ l, (decode (encode a)).isSome = true) :
    (Json.list? decode (.array (l.map encode))).isSome = true := by
  change ((l.map encode).mapM decode).isSome = true
  induction l with
  | nil => rfl
  | cons a l ih =>
      obtain ⟨b, hb⟩ := Option.isSome_iff_exists.1 (h a List.mem_cons_self)
      obtain ⟨rest, hrest⟩ :=
        Option.isSome_iff_exists.1 (ih fun a ha => h a (List.mem_cons_of_mem _ ha))
      rw [List.map_cons, List.mapM_cons, hb, hrest]
      rfl

theorem index?_ofNat {n : Nat} (h : n ≤ maxIndex) : (Json.ofNat n).index? = some n := by
  rw [Json.index?, Json.ofNat, Json.nat?, if_pos (Int.natCast_nonneg n), Option.bind_some,
    Int.toNat_natCast, if_pos h]

theorem le_of_index? {v : Json} {n : Nat} (h : v.index? = some n) : n ≤ maxIndex := by
  obtain ⟨m, -, hm⟩ := Option.bind_eq_some_iff.1 h
  split at hm
  · next hle =>
    cases hm
    exact hle
  · cases hm

namespace Path

theorem isSome_ofJson? {p : Path} (fits : p.Fits) : (ofJson? p.toJson).isSome = true := by
  refine isSome_list? fun s hs => ?_
  cases s with
  | property name | wrapper => rfl
  | index n =>
      change ((Json.ofNat n).index?.map Segment.index).isSome = true
      rw [index?_ofNat (fits n hs)]
      rfl
  | control kind => cases kind <;> rfl

theorem fits_of_ofJson? {v : Json} {p : Path} (h : ofJson? v = some p) : p.Fits := by
  intro n hn
  obtain ⟨u, hu⟩ := decoded_of_list? h _ hn
  unfold Segment.ofJson? at hu
  split at hu
  · split at hu <;> cases hu
  · split at hu
    · obtain ⟨_, _, other⟩ := Option.map_eq_some_iff.1 hu
      cases other
    · split at hu
      · obtain ⟨m, hm, same⟩ := Option.map_eq_some_iff.1 hu
        cases same
        exact le_of_index? hm
      · split at hu
        · split at hu <;> cases hu
        · split at hu
          · obtain ⟨_, _, other⟩ := Option.map_eq_some_iff.1 hu
            cases other
          · cases hu
  · cases hu

end Path

/-- What is left out of a record fits where its default does. -/
theorem of_optional {α : Type} {P : α → Prop} {decode : Json → Option α} {missing : α}
    (default : P missing) (each : ∀ v a, decode v = some a → P a) {v : Option Json} {a : α}
    (h : Json.optional decode missing v = some a) : P a := by
  cases v with
  | none =>
      cases h
      exact default
  | some v => exact each v a h

end Decoding

namespace RepeatTable

/-- The table has a stored form: its records are in order, and its numbers fit 64 bits. -/
structure Storable (t : RepeatTable) : Prop where
  inOrder : t.InOrder
  fits : ∀ k s, t.find? k = some s → k.parents.Fits ∧ s.location.Fits

private theorem isSome_field? {k : FieldKey} {s : LiveItems} (key : k.parents.Fits)
    (inOrder : s.InOrder) (location : s.location.Fits) :
    (field? (fieldJson (k, s))).isSome = true := by
  have mark : s.nextIndex ≤ maxIndex := inOrder.fits
  have small : ∀ i ∈ s.indices, (Json.ofNat i).index?.isSome = true := fun i hi => by
    rw [index?_ofNat (Nat.le_trans (Nat.le_of_lt (inOrder.below i hi)) mark)]
    rfl
  obtain ⟨parents, hparents⟩ := Option.isSome_iff_exists.1 (Path.isSome_ofJson? key)
  obtain ⟨place, hplace⟩ := Option.isSome_iff_exists.1 (Path.isSome_ofJson? location)
  obtain ⟨indices, hindices⟩ : ∃ l, LiveItems.indices? (.array (s.indices.map .ofNat)) = some l :=
    Option.isSome_iff_exists.1 (isSome_list? small)
  rw [field?_fieldJson, hparents, hindices, index?_ofNat mark, hplace]
  rfl

/-- Storing a table and reading it back loses the rebuild mark and nothing else. -/
theorem Storable.reload {t : RepeatTable} (h : t.Storable) :
    ofJson? t.toJson = some t.clearRebuild := by
  have fields : (Json.list? field? (.array (t.fields.entries.map fieldJson))).isSome = true := by
    refine isSome_list? fun e he => ?_
    have found : t.find? e.1 = some e.2 := (SortedMap.find?_eq_some_iff _).2 he
    obtain ⟨key, location⟩ := h.fits _ _ found
    exact isSome_field? key (record_of_find? found ▸ h.inOrder e.1) location
  refine reload_of_isSome h.inOrder ?_
  change ((Json.list? field? _).map _).isSome = true
  rw [Option.isSome_map]
  exact fields

section Records

/-- A record as it is stored, in order or not. -/
def storedRecord? (v : Json) : Option (FieldKey × LiveItems) :=
  match v.record? ["parents", "field", "indices", "next_index", "array_parents"] with
  | some [some parents, some (.string field), some indices, nextIndex, location] => do
    let key : FieldKey := ⟨← Path.ofJson? parents, field⟩
    let items : LiveItems :=
      { indices := ← LiveItems.indices? indices
        nextIndex := ← Json.optional Json.index? 0 nextIndex
        location := ← Json.optional Path.ofJson? [] location }
    return (key, items)
  | _ => none

def storedRecords? (v : Json) : Option (List (FieldKey × LiveItems)) :=
  match v.record? ["fields"] with
  | some [fields] => Json.optional (Json.list? storedRecord?) [] fields
  | _ => none

private def ordered (e : FieldKey × LiveItems) : FieldKey × LiveItems := (e.1, e.2.normalized)

private theorem field?_eq (v : Json) : field? v = (storedRecord? v).map ordered := by
  by_cases h : ∃ parents field indices mark location,
      v.record? ["parents", "field", "indices", "next_index", "array_parents"] =
        some [some parents, some (.string field), some indices, mark, location]
  · obtain ⟨parents, field, indices, mark, location, h⟩ := h
    rw [field?, storedRecord?, h]
    dsimp only
    cases Path.ofJson? parents with
    | none => rfl
    | some _ =>
        cases LiveItems.indices? indices with
        | none => rfl
        | some _ =>
            cases Json.optional Json.index? 0 mark with
            | none => rfl
            | some _ => cases Json.optional Path.ofJson? [] location <;> rfl
  · have unread : field? v = none := by
      rw [field?]
      split
      · next read => exact absurd ⟨_, _, _, _, _, read⟩ h
      · rfl
    have unstored : storedRecord? v = none := by
      rw [storedRecord?]
      split
      · next read => exact absurd ⟨_, _, _, _, _, read⟩ h
      · rfl
    rw [unread, unstored]
    rfl

private theorem list?_map {α β : Type} (f : α → β) (decode : Json → Option α) (v : Json) :
    Json.list? (fun u => (decode u).map f) v = (Json.list? decode v).map (List.map f) := by
  cases v with
  | array items =>
      change items.mapM _ = (items.mapM decode).map (List.map f)
      induction items with
      | nil => rfl
      | cons u items ih =>
          rw [List.mapM_cons, List.mapM_cons, ih]
          cases decode u with
          | none => rfl
          | some a => cases items.mapM decode <;> rfl
  | _ => rfl

private theorem ofJson?_eq (v : Json) :
    ofJson? v = (storedRecords? v).map fun records => ⟨.ofList (records.map ordered), false⟩ := by
  by_cases h : ∃ fields, v.record? ["fields"] = some [fields]
  · obtain ⟨fields, h⟩ := h
    rw [ofJson?, storedRecords?, h]
    cases fields with
    | none => rfl
    | some u =>
        change (Json.list? field? u).map _ = (Json.list? storedRecord? u).map _
        rw [funext field?_eq, list?_map, Option.map_map]
        rfl
  · have unread : ofJson? v = none := by
      rw [ofJson?]
      split
      · next read => exact absurd ⟨_, read⟩ h
      · rfl
    have unstored : storedRecords? v = none := by
      rw [storedRecords?]
      split
      · next read => exact absurd ⟨_, read⟩ h
      · rfl
    rw [unread, unstored]
    rfl

/-- The numbers in a record and in its key fit 64 bits. -/
private structure Small (e : FieldKey × LiveItems) : Prop where
  parents : e.1.parents.Fits
  indices : ∀ i ∈ e.2.indices, i ≤ maxIndex
  mark : e.2.nextIndex ≤ maxIndex
  location : e.2.location.Fits

private theorem small_of_storedRecord? {v : Json} {e : FieldKey × LiveItems}
    (h : storedRecord? v = some e) : Small e := by
  rw [storedRecord?] at h
  split at h
  · obtain ⟨parents, hparents, h⟩ := Option.bind_eq_some_iff.1 h
    obtain ⟨indices, hindices, h⟩ := Option.bind_eq_some_iff.1 h
    obtain ⟨mark, hmark, h⟩ := Option.bind_eq_some_iff.1 h
    obtain ⟨location, hlocation, h⟩ := Option.bind_eq_some_iff.1 h
    cases h
    constructor
    · exact Path.fits_of_ofJson? hparents
    · intro i hi
      obtain ⟨u, hu⟩ := decoded_of_list? hindices i hi
      exact le_of_index? hu
    · exact of_optional (P := (· ≤ maxIndex)) (Nat.zero_le _) (fun _ _ => le_of_index?) hmark
    · exact of_optional (P := Path.Fits) .nil (fun _ _ => Path.fits_of_ofJson?) hlocation
  · cases h

private theorem small_of_storedRecords? {v : Json} {records : List (FieldKey × LiveItems)}
    (h : storedRecords? v = some records) {e : FieldKey × LiveItems} (he : e ∈ records) :
    Small e := by
  rw [storedRecords?] at h
  split at h
  · next fields _ =>
    cases fields with
    | none =>
        cases h
        cases he
    | some u =>
        obtain ⟨w, hw⟩ := decoded_of_list? h e he
        exact small_of_storedRecord? hw
  · cases h

/-- What was read for a field, beside what was stored for it. -/
structure RestoredFrom (s stored : LiveItems) : Prop where
  ascending : s.indices.Pairwise (· < ·)
  below : ∀ i ∈ s.indices, i < s.nextIndex ∧ i ≠ maxIndex
  kept : ∀ i, i ∈ s.indices ↔ i ∈ stored.indices ∧ i ≠ maxIndex
  mark : stored.nextIndex ≤ s.nextIndex
  location : s.location = stored.location

private theorem Small.restored {e : FieldKey × LiveItems} (small : Small e) :
    RestoredFrom e.2.normalized e.2 := by
  have inOrder := LiveItems.inOrder_normalized small.mark
  have fits := inOrder.fits
  constructor
  · exact inOrder.ascending
  · intro i hi
    have below := inOrder.below i hi
    omega
  · intro i
    rw [LiveItems.mem_normalized]
    refine and_congr_right fun hi => ?_
    have := small.indices i hi
    omega
  · exact Nat.le_max_left _ _
  · rfl

/-- The last record that is stored for a key is restored, and no other one. -/
theorem restored_of_ofJson? {v : Json} {t : RepeatTable} (h : ofJson? v = some t) :
    ∃ records, storedRecords? v = some records ∧
      ∀ k, Option.Rel RestoredFrom (t.find? k) (records.reverse.lookup k) := by
  rw [ofJson?_eq] at h
  obtain ⟨records, hrecords, rfl⟩ := Option.map_eq_some_iff.1 h
  refine ⟨records, hrecords, fun k => ?_⟩
  have found : (SortedMap.ofList (records.map ordered)).find? k =
      (records.reverse.lookup k).map LiveItems.normalized := by
    rw [SortedMap.find?_ofList, ← List.map_reverse]
    exact lookup_map_snd LiveItems.normalized
  rw [find?, found]
  cases hstored : records.reverse.lookup k with
  | none => exact .none
  | some stored =>
      have mem : (k, stored) ∈ records := List.mem_reverse.1 (mem_of_lookup hstored)
      exact .some (small_of_storedRecords? hrecords mem).restored

/-- Whatever was stored, what is read has a stored form. -/
theorem storable_of_ofJson? {v : Json} {t : RepeatTable} (h : ofJson? v = some t) :
    t.Storable := by
  refine ⟨inOrder_of_ofJson? h, fun k s hs => ?_⟩
  obtain ⟨records, hrecords, restored⟩ := restored_of_ofJson? h
  have here := restored k
  rw [hs] at here
  generalize hstored : records.reverse.lookup k = stored at here
  cases here with
  | some same =>
      have mem := List.mem_reverse.1 (mem_of_lookup hstored)
      have small := small_of_storedRecords? hrecords mem
      exact ⟨small.parents, same.location ▸ small.location⟩

theorem unmarked_of_ofJson? {v : Json} {t : RepeatTable} (h : ofJson? v = some t) :
    t.clearRebuild = t := by
  rw [ofJson?_eq] at h
  obtain ⟨_, -, rfl⟩ := Option.map_eq_some_iff.1 h
  rfl

end Records

section Operations

variable {t : RepeatTable} {k : FieldKey}

theorem storable_empty : empty.Storable := ⟨fun _ => LiveItems.inOrder_empty, nofun⟩

private theorem Storable.record (h : t.Storable) (k : FieldKey) : (t.record k).location.Fits := by
  rw [RepeatTable.record]
  cases known : t.find? k with
  | none => exact .nil
  | some s => exact (h.fits k s known).2

private theorem Storable.insert (h : t.Storable) {s : LiveItems} (key : k.parents.Fits)
    (inOrder : s.InOrder) (location : s.location.Fits) (b : Bool) :
    Storable ⟨t.fields.insert k s, b⟩ := by
  constructor
  · intro j
    rw [RepeatTable.record, find?_insert]
    split
    · exact inOrder
    · exact h.inOrder j
  · intro j s' hs'
    rw [find?_insert] at hs'
    split at hs'
    · next hj =>
      cases hs'
      exact ⟨hj ▸ key, location⟩
    · exact h.fits j s' hs'

theorem Storable.add (h : t.Storable) (key : k.parents.Fits) {i : Nat} {t' : RepeatTable}
    (added : t.add? k = some (i, t')) : t'.Storable := by
  obtain ⟨rfl, hlt, rfl⟩ := eq_of_add? (h.inOrder k) added
  exact h.insert key ((h.inOrder k).add hlt) (h.record k) true

theorem Storable.remove (h : t.Storable) (k : FieldKey) (i : Nat) : (t.remove k i).2.Storable := by
  by_cases hi : i ∈ t.indices k
  · obtain ⟨s, known, hi⟩ := exists_of_mem_indices hi
    have inOrder : s.InOrder := record_of_find? known ▸ h.inOrder k
    obtain ⟨key, location⟩ := h.fits k s known
    rw [remove_of_find? known inOrder hi]
    exact h.insert key (inOrder.erase i) location true
  · rw [remove_of_not_mem h.inOrder hi]
    exact ⟨h.inOrder, h.fits⟩

theorem Storable.set (h : t.Storable) (key : k.parents.Fits) {s : LiveItems}
    (mark : s.nextIndex ≤ maxIndex) (location : s.location.Fits) : (t.set k s).Storable :=
  h.insert key (LiveItems.inOrder_normalized mark) location _

theorem Storable.ensure (h : t.Storable) (key : k.parents.Fits) {count : Nat}
    (fits : count ≤ maxIndex) {location : Path} (place : location.Fits) :
    (t.ensure k count location).Storable :=
  h.insert key (inOrder_ensured h.inOrder fits k location) place _

theorem Storable.clearRebuild (h : t.Storable) : t.clearRebuild.Storable := ⟨h.inOrder, h.fits⟩

end Operations

end RepeatTable
end FormTree
