import FormTree.Proofs.Compile.Items

/-!
Trees and tables in step. Whatever happened to a session before, a build that
succeeds leaves a table with the very items that its tree shows.
-/

namespace FormTree
namespace Session

/-- A session is edited, built or submitted to. -/
inductive Next : Session → Session → Prop
  | add (s : Session) (k : FieldKey) : Next s (s.addItem k).session
  | remove (s : Session) (k : FieldKey) (i : Nat) : Next s (s.removeItem k i).session
  | build (s : Session) (input : Option Json) : Next s (s.build input).session
  | submit (s : Session) (v : Validator) (raw : Json) : Next s (s.submit v raw).session

abbrev Runs : Session → Session → Prop := Relation.ReflTransGen Next

variable {s s' : Session}

private theorem document_build (s : Session) (input : Option Json) :
    (s.build input).session.document = s.document := by
  rw [build]
  split
  · rfl
  · rfl

theorem Next.document (h : Next s s') : s'.document = s.document := by
  cases h with
  | add k => rw [addItem_session]
  | remove k i => rfl
  | build input => exact document_build s input
  | submit v raw =>
      rw [RepeatTable.submit_session]
      exact document_build s (some raw)

theorem Next.reachable (h : Next s s') (reachable : s.table.Reachable) : s'.table.Reachable := by
  cases h with
  | add k =>
      rw [addItem_session]
      exact .step reachable (.add s.table k)
  | remove k i => exact .step reachable (.remove s.table k i)
  | build input => exact .step reachable (.build s input)
  | submit v raw => exact .step reachable (.submit s v raw)

theorem Runs.keeps (h : Runs s s') (reachable : s.table.Reachable) :
    s'.document = s.document ∧ s'.table.Reachable := by
  induction h with
  | refl => exact ⟨rfl, reachable⟩
  | tail _ next ih => exact ⟨next.document.trans ih.1, next.reachable ih.2⟩

/-- After a build each repeated field has a record of its own, under a key of its own, with its
place in the tree and exactly the items that it holds. -/
theorem items_match_table {start s : Session} {input : Option Json} {tree : WidgetTree}
    (accepted : start.document.Accepted)
    (stored : start.table = .empty ∨ ∃ v, RepeatTable.ofJson? v = some start.table)
    (run : Runs start s) (built : (s.build input).result = .ok tree) :
    let table := (s.build input).session.table
    (∀ n ∈ tree.nodes, n.widget.kind = .repeatable →
        ∃ k live, FieldKey.ofPath? n.widget.propPath = some k ∧ table.find? k = some live ∧
          table.location? k = some n.path ∧ tree.find? n.path = some n ∧
            live.indices.Pairwise (· < ·) ∧ n.HoldsItems live.indices ∧
              n.widget.cardinality = some ⟨live.indices.getLast?, true⟩) ∧
      (∀ n ∈ tree.nodes, ∀ n' ∈ tree.nodes, n.widget.kind = .repeatable →
        n'.widget.kind = .repeatable →
          FieldKey.ofPath? n.widget.propPath = FieldKey.ofPath? n'.widget.propPath → n = n') ∧
        (s.build input).session.needsRebuild = false := by
  have fromStart : start.table.Reachable := by
    rcases stored with empty | ⟨v, read⟩
    · exact empty ▸ .empty
    · exact .read read
  obtain ⟨document, reachable⟩ := run.keeps fromStart
  rw [← document] at accepted
  cases hok : compileForm s.options s.root s.document s.hint input s.table with
  | error e =>
      rw [build, hok] at built
      cases built
  | ok form =>
      rw [build, hok] at built ⊢
      cases built
      have placed := (layout_of_compileForm accepted reachable hok).placed
      have inOrder : form.table.InOrder :=
        ((compileForm_ok hok).1).inOrder reachable.inOrder
      refine ⟨?_, ?_, rfl⟩
      · intro n hn kind
        obtain ⟨k, live, key, known, location, cardinality, items⟩ :=
          (settled_of_compileForm accepted reachable hok).items hn kind
        have ordered : live.InOrder := RepeatTable.record_of_find? known ▸ inOrder k
        have located : form.table.location? k = some n.path := by
          rw [RepeatTable.location?, known, ← location]
          rfl
        exact ⟨k, live, key, known, located, placed.find? hn, ordered.ascending, items,
          cardinality⟩
      · intro n hn n' hn' kind kind' same
        exact repeated_eq_of_key accepted reachable hok hn hn' kind kind' same

private def storedRows : Json :=
  let rows : Json := .object
    [("parents", .array []), ("field", .string "rows"), ("indices", .array [.ofNat 2, .ofNat 0]),
      ("next_index", .ofNat 3)]
  .object [("fields", .array [rows])]

private def storedTable : RepeatTable := RepeatTable.empty.set .rows ⟨[2, 0], 3, []⟩

private def rowsSession : Session := ⟨rowsOfTexts, {}, {}, [.property "form"], storedTable⟩

/-- A row is added, the first one is removed, and the new row gets two texts, one of which goes. -/
private def editedSession : Session :=
  let s := (rowsSession.addItem .rows).session
  let s := (s.removeItem .rows 0).session
  let s := (s.addItem (.row 3)).session
  let s := (s.addItem (.row 3)).session
  (s.removeItem (.row 3) 0).session

private theorem storedTable_eq : storedTable = .twoRows := by
  rw [storedTable, RepeatTable.set,
    LiveItems.normalized_of_perm (l := [0, 2]) (by decide) (by decide) (by decide)]
  rfl

private def editedTable : RepeatTable :=
  ⟨(SortedMap.empty.insert .rows ⟨[2, 3], 4, []⟩).insert (.row 3) ⟨[1], 2, []⟩, true⟩

private theorem editedSession_eq : editedSession = { rowsSession with table := editedTable } := by
  have added : (rowsSession.addItem .rows).session =
      { rowsSession with table := ⟨SortedMap.empty.insert .rows ⟨[0, 2, 3], 4, []⟩, true⟩ } := by
    rw [rowsSession, storedTable_eq]
    rfl
  have removed : ((rowsSession.addItem .rows).session.removeItem .rows 0).session =
      { rowsSession with table := ⟨SortedMap.empty.insert .rows ⟨[2, 3], 4, []⟩, true⟩ } := by
    rw [added, removeItem,
      RepeatTable.remove_of_find? (s := ⟨[0, 2, 3], 4, []⟩) rfl (by decide) (by decide)]
    rfl
  rw [editedSession, removed, removeItem,
    RepeatTable.remove_of_find? (s := ⟨[0, 1], 2, []⟩) rfl (by decide) (by decide)]
  rfl

theorem items_match_table_after_edits : ∃ tree,
    rowsOfTexts.Accepted ∧ RepeatTable.ofJson? storedRows = some rowsSession.table ∧
      Runs rowsSession editedSession ∧ (editedSession.build none).result = .ok tree ∧
      tree.nodes.countP WidgetTree.isRepeated = 3 ∧
        let table := (editedSession.build none).session.table
        (∀ n ∈ tree.nodes, n.widget.kind = .repeatable →
            ∃ k live, FieldKey.ofPath? n.widget.propPath = some k ∧ table.find? k = some live ∧
              table.location? k = some n.path ∧ tree.find? n.path = some n ∧
                live.indices.Pairwise (· < ·) ∧ n.HoldsItems live.indices ∧
                  n.widget.cardinality = some ⟨live.indices.getLast?, true⟩) ∧
          (∀ n ∈ tree.nodes, ∀ n' ∈ tree.nodes, n.widget.kind = .repeatable →
            n'.widget.kind = .repeatable →
              FieldKey.ofPath? n.widget.propPath = FieldKey.ofPath? n'.widget.propPath →
                n = n') ∧
            (editedSession.build none).session.needsRebuild = false := by
  have read : RepeatTable.ofJson? storedRows = some rowsSession.table := rfl
  have run : Runs rowsSession editedSession :=
    (((((Relation.ReflTransGen.refl.tail (.add rowsSession .rows)).tail (.remove _ .rows 0)).tail
      (.add _ (.row 3))).tail (.add _ (.row 3))).tail (.remove _ (.row 3) 0))
  have count : (editedSession.build none).result.map
      (fun tree => tree.nodes.countP WidgetTree.isRepeated) = .ok 3 := by
    rw [editedSession_eq]
    rfl
  cases built : (editedSession.build none).result with
  | error e => rw [built] at count; cases count
  | ok tree =>
      rw [built] at count
      exact ⟨tree, rowsOfTexts_accepted, read, run, rfl, Except.ok.inj count,
        items_match_table rowsOfTexts_accepted (.inr ⟨storedRows, read⟩) run built⟩

end Session
end FormTree
