import FormTree.Proofs.Compile.Displays
import FormTree.Proofs.Repeat.Stored
import FormTree.Session

/-!
The history of a table, through additions, removals, compilations and reloads in
any order. Marks only rise, and an item that comes in later has an index that no
item had before. So an index is given away once, and an item that was removed
never comes back.
-/

namespace FormTree

namespace Session

variable (s : Session) (k : FieldKey)

theorem addItem_result : (s.addItem k).result = (s.table.add k).1 := by
  rw [addItem]
  rcases s.table.add k with ⟨_ | i, table⟩ <;> rfl

theorem addItem_session : (s.addItem k).session = { s with table := (s.table.add k).2 } := by
  rw [addItem]
  rcases s.table.add k with ⟨_ | i, table⟩ <;> rfl

end Session

namespace RepeatTable

/-- One step in the life of a table. -/
inductive Step : RepeatTable → RepeatTable → Prop
  | add (t : RepeatTable) (k : FieldKey) : Step t (t.add k).2
  | remove (t : RepeatTable) (k : FieldKey) (i : Nat) : Step t (t.remove k i).2
  | ensure {t t' : RepeatTable} (ensures : t.Ensures t') : Step t t'
  | compile {options : CompileOptions} {root : Path} {d : SchemaDocument} {h : Hint}
      {input : Option Json} {t : RepeatTable} {form : CompiledForm}
      (compiled : compileForm options root d h input t = .ok form) : Step t form.table
  | build (s : Session) (input : Option Json) : Step s.table (s.build input).session.table
  | submit (s : Session) (v : Validator) (raw : Json) : Step s.table (s.submit v raw).session.table
  | reload {t t' : RepeatTable} (read : ofJson? t.toJson = some t') : Step t t'

abbrev Runs : RepeatTable → RepeatTable → Prop := Relation.ReflTransGen Step

theorem Step.of_add? {t t' : RepeatTable} {k : FieldKey} {i : Nat}
    (added : t.add? k = some (i, t')) : Step t t' := by
  have step := Step.add t k
  rwa [add?_eq_some.1 added] at step

/-- What was stored for every field comes before what is stored for it later. -/
structure Advances (t u : RepeatTable) : Prop where
  marks : ∀ k, (t.record k).nextIndex ≤ (u.record k).nextIndex
  items : ∀ k, ∀ i ∈ (u.record k).indices,
    i ∈ (t.record k).indices ∨ (t.record k).nextIndex ≤ i

namespace Advances

theorem refl (t : RepeatTable) : t.Advances t := ⟨fun _ => Nat.le_refl _, fun _ _ => .inl⟩

theorem trans {t u v : RepeatTable} (first : t.Advances u) (second : u.Advances v) :
    t.Advances v := by
  refine ⟨fun k => Nat.le_trans (first.marks k) (second.marks k), ?_⟩
  intro k i hi
  rcases second.items k i hi with hi | hi
  · exact first.items k i hi
  · exact .inr (Nat.le_trans (first.marks k) hi)

/-- Only one record matters where the others stay as they are. -/
private theorem of_record {t u : RepeatTable} {k : FieldKey} {s : LiveItems}
    (h : ∀ j, u.record j = if j = k then s else t.record j)
    (mark : (t.record k).nextIndex ≤ s.nextIndex)
    (items : ∀ i ∈ s.indices, i ∈ (t.record k).indices ∨ (t.record k).nextIndex ≤ i) :
    t.Advances u := by
  constructor
  · intro j
    rw [h j]
    split
    · next hj => exact hj ▸ mark
    · exact Nat.le_refl _
  · intro j
    rw [h j]
    split
    · next hj => exact hj ▸ items
    · exact fun _ => .inl

end Advances

private theorem inOrder_of_record {t u : RepeatTable} (ht : t.InOrder) {k : FieldKey}
    {s : LiveItems} (hs : s.InOrder) (h : ∀ j, u.record j = if j = k then s else t.record j) :
    u.InOrder := by
  intro j
  rw [h j]
  split
  · exact hs
  · exact ht j

private theorem add_forward {t : RepeatTable} (ht : t.InOrder) (k : FieldKey) :
    (t.add k).2.InOrder ∧ t.Advances (t.add k).2 := by
  cases given : (t.add k).1 with
  | none =>
      rw [add_refused given]
      exact ⟨ht, .refl t⟩
  | some i =>
      have added := add?_eq_some.2 (Prod.ext given rfl)
      obtain ⟨rfl, hlt, -⟩ := record_add ht added k
      have records := fun j => (record_add ht added j).2.2
      refine ⟨inOrder_of_record ht ((ht k).add hlt) records, .of_record records (Nat.le_succ _) ?_⟩
      intro i hi
      rcases List.mem_append.1 hi with hi | hi
      · exact .inl hi
      · exact .inr (Nat.le_of_eq (List.mem_singleton.1 hi).symm)

private theorem remove_forward {t : RepeatTable} (ht : t.InOrder) (k : FieldKey) (i : Nat) :
    (t.remove k i).2.InOrder ∧ t.Advances (t.remove k i).2 := by
  have records := fun j => (record_remove ht k i j).2
  exact ⟨inOrder_of_record ht ((ht k).erase i) records,
    .of_record records (Nat.le_refl _) fun j hj => .inl (List.mem_of_mem_erase hj)⟩

private theorem Ensures.advances {t u : RepeatTable} (h : t.Ensures u) : t.Advances u := by
  cases h with
  | @ensure k count fits location =>
      refine .of_record (record_ensure t k count location) ?_ ?_ <;> rw [ensured, record]
      · cases t.find? k with
        | none => exact Nat.zero_le _
        | some s => exact Nat.le_refl _
      · cases t.find? k with
        | none => exact fun i _ => .inr (Nat.zero_le i)
        | some s => exact fun i => .inl

private theorem Ensured.advances {t u : RepeatTable} (h : t.Ensured u) : t.Advances u := by
  induction h with
  | refl => exact .refl t
  | tail _ step ih => exact ih.trans step.advances

private theorem advances_clearRebuild (t : RepeatTable) : t.Advances t.clearRebuild :=
  ⟨fun _ => Nat.le_refl _, fun _ _ => .inl⟩

private theorem build_forward {s : Session} (hs : s.table.InOrder) (input : Option Json) :
    (s.build input).session.table.InOrder ∧ s.table.Advances (s.build input).session.table := by
  rw [Session.build]
  split
  · exact ⟨hs, .refl _⟩
  · next form hform =>
    obtain ⟨ensured, -⟩ := compileForm_ok hform
    exact ⟨ensured.inOrder hs, ensured.advances.trans (advances_clearRebuild _)⟩

/-- A submission leaves the table that its build leaves. -/
theorem submit_session (s : Session) (v : Validator) (raw : Json) :
    (s.submit v raw).session = (s.build (some raw)).session := by
  simp only [Session.submit]
  split
  · rfl
  · split <;> rfl

/-- A step keeps records in order and only advances. -/
theorem Step.forward {t u : RepeatTable} (h : Step t u) (ht : t.InOrder) :
    u.InOrder ∧ t.Advances u := by
  cases h with
  | add _ k => exact add_forward ht k
  | remove _ k i => exact remove_forward ht k i
  | ensure ensures => exact ⟨ensures.inOrder ht, ensures.advances⟩
  | compile compiled =>
      obtain ⟨ensured, -⟩ := compileForm_ok compiled
      exact ⟨ensured.inOrder ht, ensured.advances⟩
  | build s input => exact build_forward ht input
  | submit s v raw =>
      rw [submit_session]
      exact build_forward ht (some raw)
  | reload read =>
      rw [eq_of_reload ht read]
      exact ⟨ht, advances_clearRebuild t⟩

theorem Runs.forward {t u : RepeatTable} (h : Runs t u) (ht : t.InOrder) :
    u.InOrder ∧ t.Advances u := by
  induction h with
  | refl => exact ⟨ht, .refl t⟩
  | tail _ step ih =>
      obtain ⟨hu, advances⟩ := ih
      obtain ⟨hv, further⟩ := step.forward hu
      exact ⟨hv, advances.trans further⟩

/-- What the operations on tables can lead to, from no fields or from a stored table. -/
inductive Reachable : RepeatTable → Prop
  | empty : Reachable .empty
  | read {v : Json} {t : RepeatTable} (h : ofJson? v = some t) : Reachable t
  | set {t : RepeatTable} (k : FieldKey) {s : LiveItems} (fits : s.nextIndex ≤ maxIndex)
      (h : Reachable t) : Reachable (t.set k s)
  | clearRebuild {t : RepeatTable} (h : Reachable t) : Reachable t.clearRebuild
  | step {t u : RepeatTable} (h : Reachable t) (step : Step t u) : Reachable u

theorem Reachable.inOrder {t : RepeatTable} (h : Reachable t) : t.InOrder := by
  induction h with
  | empty => exact fun _ => LiveItems.inOrder_empty
  | read h => exact inOrder_of_ofJson? h
  | set k fits _ ih =>
      exact inOrder_of_record ih (LiveItems.inOrder_normalized fits) (record_set _ k _)
  | clearRebuild _ ih => exact ih
  | step _ step ih => exact (step.forward ih).1

/-- An index that is given away comes into use, and no item had it before. -/
private theorem given_is_new {t u : RepeatTable} (ht : t.InOrder) (hu : u.InOrder)
    (advances : t.Advances u) {k : FieldKey} {i : Nat} (given : (u.add k).1 = some i) :
    i ∉ t.indices k ∧ i ∈ (u.add k).2.indices k := by
  obtain ⟨rfl, -, record⟩ := record_add hu (add?_eq_some.2 (Prod.ext given rfl)) k
  rw [if_pos rfl] at record
  rw [indices_eq, indices_eq, record]
  constructor
  · intro used
    exact Nat.not_lt.2 (advances.marks k) ((ht k).below _ used)
  · exact List.mem_append_right _ List.mem_cons_self

/-- An item that was removed does not come back. -/
private theorem removed_is_gone {t u : RepeatTable} (ht : t.InOrder) {k : FieldKey} {i : Nat}
    (removed : (t.remove k i).1 = true) (later : Runs (t.remove k i).2 u) : i ∉ u.indices k := by
  intro hi
  obtain ⟨hin, record⟩ := record_remove ht k i k
  rw [if_pos rfl] at record
  have live : i ∈ (t.record k).indices := hin.1 removed
  obtain ⟨ht', -⟩ := remove_forward ht k i
  obtain ⟨-, advances⟩ := later.forward ht'
  rw [indices_eq] at hi
  rcases advances.items k i hi with hi | hi <;> rw [record] at hi
  · exact (ht k).nodup.not_mem_erase hi
  · exact absurd ((ht k).below i live) (Nat.not_lt.2 hi)

/-- In every run from a stored table, an index that is given away comes into use and is no index of
an item that was there at any time before, it is not given away again, an item that was removed
never comes back, and nothing is given away, and nothing changes, just when the mark has come to
the end. -/
theorem indices_never_reused {v : Json} {start t u : RepeatTable} (read : ofJson? v = some start)
    (before : Runs start t) (after : Runs t u) (k : FieldKey) :
    (∀ i, (u.add k).1 = some i → i ∉ t.indices k ∧ i ∈ (u.add k).2.indices k) ∧
      (∀ i, (t.add k).1 = some i → ∀ u', Runs (t.add k).2 u' → (u'.add k).1 ≠ some i) ∧
        (∀ i, (t.remove k i).1 = true → ∀ u', Runs (t.remove k i).2 u' → i ∉ u'.indices k) ∧
          ((u.add k).1 = none ↔ (u.record k).nextIndex = maxIndex) ∧
            ((u.add k).1 = none → (u.add k).2 = u ∧ ∀ s : Session, s.table = u →
              (s.addItem k).result = none ∧ (s.addItem k).session = s) := by
  obtain ⟨ht, -⟩ := before.forward (inOrder_of_ofJson? read)
  obtain ⟨hu, advances⟩ := after.forward ht
  refine ⟨fun i => given_is_new ht hu advances, ?_, ?_, add_none_iff hu k, ?_⟩
  · intro i given u' later again
    obtain ⟨ht', -⟩ := add_forward ht k
    obtain ⟨hu', advances'⟩ := later.forward ht'
    exact (given_is_new ht' hu' advances' again).1 (given_is_new ht ht (.refl t) given).2
  · exact fun i removed u' => removed_is_gone ht removed
  · intro none
    refine ⟨add_refused none, ?_⟩
    rintro s rfl
    rw [Session.addItem_result, Session.addItem_session, add_refused none]
    exact ⟨none, rfl⟩

private def tags : FieldKey := ⟨[], "tags"⟩

private def twoTags : RepeatTable := RepeatTable.empty.set tags ⟨[2, 0], 0, []⟩

private theorem twoTags_eq : twoTags = ⟨SortedMap.empty.insert tags ⟨[0, 2], 3, []⟩, false⟩ := by
  rw [twoTags, set, LiveItems.normalized_of_perm (l := [0, 2]) (by decide) (by decide) (by decide)]
  rfl

private theorem remove_twoTags : twoTags.remove tags 2 =
    (true, ⟨(SortedMap.empty.insert tags ⟨[0, 2], 3, []⟩).insert tags ⟨[0], 3, []⟩, true⟩) := by
  rw [twoTags_eq]
  exact remove_of_find? (s := ⟨[0, 2], 3, []⟩) rfl (by decide) (by decide)

private def oneTag : RepeatTable := (twoTags.remove tags 2).2.clearRebuild

/-- Tags whose mark has come to the end. -/
private def fullTags : RepeatTable := ⟨SortedMap.empty.insert tags ⟨[0], maxIndex, []⟩, false⟩

private theorem read_fullTags : ofJson? fullTags.toJson = some fullTags := by
  have set : RepeatTable.empty.set tags ⟨[0], maxIndex, []⟩ = fullTags :=
    set_of_inOrder _ _ (by decide)
  have inOrder : fullTags.InOrder := Reachable.inOrder (set ▸ .set tags (Nat.le_refl _) .empty)
  exact reload_of_isSome inOrder rfl

/-- Two items are stored, one is removed, the table is stored and read again, and an item is added.
Where the mark has come to the end, none is. -/
theorem indices_never_reused_after_reload :
    ofJson? twoTags.toJson = some twoTags ∧ Runs twoTags oneTag ∧
      (twoTags.remove tags 2).1 = true ∧ (oneTag.add tags).1 = some 3 ∧
        3 ∉ twoTags.indices tags ∧ 3 ∈ (oneTag.add tags).2.indices tags ∧
          (∀ u', Runs (oneTag.add tags).2 u' → (u'.add tags).1 ≠ some 3) ∧
            (∀ u', Runs (twoTags.remove tags 2).2 u' → 2 ∉ u'.indices tags) ∧
              ofJson? fullTags.toJson = some fullTags ∧ fullTags.add tags = (none, fullTags) := by
  have inOrder : twoTags.InOrder := Reachable.inOrder (.set tags (Nat.zero_le _) .empty)
  have read : ofJson? twoTags.toJson = some twoTags :=
    reload_of_isSome inOrder (by rw [twoTags_eq]; rfl)
  have reload : ofJson? (twoTags.remove tags 2).2.toJson = some oneTag :=
    reload_of_isSome (remove_forward inOrder tags 2).1 (by rw [remove_twoTags]; rfl)
  have after : Runs twoTags oneTag := .tail (.single (.remove twoTags tags 2)) (.reload reload)
  have removed : (twoTags.remove tags 2).1 = true := by rw [remove_twoTags]
  have given : (oneTag.add tags).1 = some 3 := by rw [oneTag, remove_twoTags]; rfl
  obtain ⟨new, -, gone, -⟩ := indices_never_reused read .refl after tags
  obtain ⟨-, once, -⟩ := indices_never_reused read after .refl tags
  obtain ⟨-, -, -, atEnd, unchanged⟩ := indices_never_reused read_fullTags .refl .refl tags
  have refused : (fullTags.add tags).1 = none := atEnd.2 rfl
  exact ⟨read, after, removed, given, (new 3 given).1, (new 3 given).2, once 3 given,
    gone 2 removed, read_fullTags, Prod.ext refused (unchanged refused).1⟩

end RepeatTable
end FormTree
