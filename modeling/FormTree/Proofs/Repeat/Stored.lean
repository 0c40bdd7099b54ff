import FormTree.Proofs.Repeat.Records
import FormTree.Proofs.SortedMap
import FormTree.Repeat.Json

/-!
Stored tables. A table whose records are in order is read back from its stored
form with every record as it was; only the rebuild mark is lost.
-/

namespace FormTree

/-- What a decoder gives back of a stored value is the value, if it is anything. -/
def Restores {α : Type} (encode : α → Json) (decode : Json → Option α) (a : α) : Prop :=
  ∀ b, decode (encode a) = some b → b = a

theorem restores_list {α : Type} {encode : α → Json} {decode : Json → Option α} {l : List α}
    (h : ∀ a ∈ l, Restores encode decode a) :
    Restores (fun l => .array (l.map encode)) (Json.list? decode) l := by
  intro l' hl
  change (l.map encode).mapM decode = some l' at hl
  induction l generalizing l' with
  | nil =>
      cases hl
      rfl
  | cons a l ih =>
      rw [List.map_cons, List.mapM_cons] at hl
      obtain ⟨b, hb, hl⟩ := Option.bind_eq_some_iff.1 hl
      obtain ⟨rest, hrest, hl⟩ := Option.bind_eq_some_iff.1 hl
      cases hl
      rw [h a List.mem_cons_self b hb,
        ih (fun a ha => h a (List.mem_cons_of_mem _ ha)) rest hrest]

theorem decoded_of_list? {α : Type} {decode : Json → Option α} {v : Json} {l : List α}
    (h : v.list? decode = some l) : ∀ a ∈ l, ∃ u, decode u = some a := by
  obtain ⟨items, -, hitems⟩ := Option.bind_eq_some_iff.1 h
  clear h
  induction items generalizing l with
  | nil =>
      cases hitems
      nofun
  | cons u items ih =>
      rw [List.mapM_cons] at hitems
      obtain ⟨a, ha, hitems⟩ := Option.bind_eq_some_iff.1 hitems
      obtain ⟨rest, hrest, hitems⟩ := Option.bind_eq_some_iff.1 hitems
      cases hitems
      exact List.forall_mem_cons.2 ⟨⟨u, ha⟩, ih hrest⟩

theorem restores_index (n : Nat) : Restores .ofNat Json.index? n := by
  intro m hm
  rw [Json.index?] at hm
  obtain ⟨k, hk, hm⟩ := Option.bind_eq_some_iff.1 hm
  rw [Json.ofNat, Json.nat?, if_pos (Int.natCast_nonneg n)] at hk
  split at hm <;> cases hm
  cases hk
  rfl

theorem restores_segment (s : Segment) : Restores Segment.toJson Segment.ofJson? s := by
  intro r hr
  cases s with
  | property name =>
      cases hr
      rfl
  | index n =>
      obtain ⟨m, hm, rfl⟩ := Option.map_eq_some_iff.1 hr
      rw [restores_index n m hm]
  | wrapper =>
      cases hr
      rfl
  | control kind =>
      cases kind <;> cases hr <;> rfl

theorem restores_path (p : Path) : Restores Path.toJson Path.ofJson? p :=
  restores_list fun s _ => restores_segment s

theorem restores_indices (indices : List Nat) :
    Restores (fun l => .array (l.map .ofNat)) LiveItems.indices? indices :=
  restores_list fun n _ => restores_index n

namespace RepeatTable

/-- What is read of a stored record, part by part. -/
theorem field?_fieldJson (k : FieldKey) (s : LiveItems) :
    field? (fieldJson (k, s)) =
      (Path.ofJson? k.parents.toJson).bind fun parents =>
        (LiveItems.indices? (.array (s.indices.map .ofNat))).bind fun indices =>
          (Json.ofNat s.nextIndex).index?.bind fun nextIndex =>
            (Path.ofJson? s.location.toJson).bind fun location =>
              some (⟨parents, k.field⟩, LiveItems.normalized ⟨indices, nextIndex, location⟩) :=
  rfl

private theorem restores_field {e : FieldKey × LiveItems} (h : e.2.InOrder) :
    Restores fieldJson field? e := by
  obtain ⟨⟨parents, name⟩, indices, mark, location⟩ := e
  intro e' he
  rw [field?_fieldJson] at he
  obtain ⟨p, hp, he⟩ := Option.bind_eq_some_iff.1 he
  obtain ⟨is, his, he⟩ := Option.bind_eq_some_iff.1 he
  obtain ⟨n, hn, he⟩ := Option.bind_eq_some_iff.1 he
  obtain ⟨l, hl, he⟩ := Option.bind_eq_some_iff.1 he
  cases he
  rw [restores_path _ _ hp, restores_indices _ _ his, restores_index _ _ hn,
    restores_path _ _ hl, LiveItems.normalized_of_inOrder h]

/-- A table in order is read back as it was, without the rebuild mark. -/
theorem eq_of_reload {t u : RepeatTable} (ht : t.InOrder) (h : ofJson? t.toJson = some u) :
    u = t.clearRebuild := by
  have read : ofJson? t.toJson =
      (Json.list? field? (.array (t.fields.entries.map fieldJson))).map fun entries =>
        ⟨.ofList entries, false⟩ := rfl
  rw [read] at h
  obtain ⟨entries, hentries, rfl⟩ := Option.map_eq_some_iff.1 h
  have stored : ∀ e ∈ t.fields.entries, e.2.InOrder := by
    intro e he
    have found : t.find? e.1 = some e.2 := (SortedMap.find?_eq_some_iff _).2 he
    exact record_of_find? found ▸ ht e.1
  rw [restores_list (fun e he => restores_field (stored e he)) _ hentries,
    SortedMap.ofList_entries]
  rfl

theorem reload_of_isSome {t : RepeatTable} (ht : t.InOrder)
    (h : (ofJson? t.toJson).isSome = true) : ofJson? t.toJson = some t.clearRebuild := by
  obtain ⟨u, hu⟩ := Option.isSome_iff_exists.1 h
  rw [hu, eq_of_reload ht hu]

private theorem inOrder_of_field? {v : Json} {e : FieldKey × LiveItems} (h : field? v = some e) :
    e.2.InOrder := by
  rw [field?] at h
  split at h
  · obtain ⟨parents, _, h⟩ := Option.bind_eq_some_iff.1 h
    obtain ⟨indices, _, h⟩ := Option.bind_eq_some_iff.1 h
    obtain ⟨mark, hmark, h⟩ := Option.bind_eq_some_iff.1 h
    obtain ⟨location, _, h⟩ := Option.bind_eq_some_iff.1 h
    cases h
    refine LiveItems.inOrder_normalized ?_
    unfold Json.optional at hmark
    split at hmark
    · cases hmark
      exact Nat.zero_le _
    · rw [Json.index?] at hmark
      obtain ⟨n, _, hn⟩ := Option.bind_eq_some_iff.1 hmark
      split at hn
      · next hle =>
        cases hn
        exact hle
      · cases hn
  · cases h

theorem inOrder_of_ofJson? {v : Json} {t : RepeatTable} (h : ofJson? v = some t) : t.InOrder := by
  rw [ofJson?] at h
  split at h
  · obtain ⟨entries, hentries, rfl⟩ := Option.map_eq_some_iff.1 h
    have stored : ∀ e ∈ entries, e.2.InOrder := by
      intro e he
      unfold Json.optional at hentries
      split at hentries
      · cases hentries
        cases he
      · obtain ⟨u, hu⟩ := decoded_of_list? hentries e he
        exact inOrder_of_field? hu
    intro k
    rw [record, find?]
    cases hs : (SortedMap.ofList entries).find? k with
    | none => exact LiveItems.inOrder_empty
    | some s =>
        exact stored (k, s) (SortedMap.mem_of_mem_ofList ((SortedMap.find?_eq_some_iff _).1 hs))
  · cases h

end RepeatTable
end FormTree
