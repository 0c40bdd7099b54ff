import FormTree.Proofs.Compile.Layout
import FormTree.Proofs.PointerMap.Fields

/-!
The pointer map of a form is a bijection between pointers and fields.
-/

namespace FormTree

open WidgetTree (At Layout)

namespace PointerMap

mutual

private theorem pairs_sublist (tokens : List String) :
    (t : WidgetTree) → ((pairs tokens t).map Prod.snd).Sublist (t.nodes.map WidgetTree.path)
  | .node w children => (pairsOf_sublist tokens w.kind 0 children).cons_cons w.path

private theorem pairsOf_sublist (tokens : List String) (parent : Widget.Kind) (place : Nat) :
    (children : List WidgetTree) →
      ((pairsOf tokens parent place children).map Prod.snd).Sublist
        ((WidgetTree.nodesOf children).map WidgetTree.path)
  | [] => .slnil
  | .node w below :: rest => by
      rw [pairsOf, WidgetTree.nodesOf, List.map_append]
      split
      · exact (pairsOf_sublist tokens parent place rest).trans (List.sublist_append_right _ _)
      · rw [List.map_append]
        exact (pairs_sublist _ (.node w below)).append (pairsOf_sublist ..)

end

private def mount (t : WidgetTree) (root : Path) : List String :=
  (((t.path.below? root).getD []).withoutSynthetic).map Segment.key

/-- The map of a layout holds one entry for each field, under tokens that lead to it. -/
theorem ofTree_holds {p : Path} {t : WidgetTree} (h : Layout p t) (root : Path) :
    ∃ left, (ofTree t root).Holds left ∧
      left.map Prod.snd = (t.nodes.filter isField).map WidgetTree.path ∧
        (left.map Prod.fst).Nodup ∧
          ∀ e ∈ left, ∃ rel ts n,
            At t rel ts n ∧ e = (Pointer.join (mount t root ++ ts), n.path) := by
  obtain ⟨below, hbelow⟩ := leaves_of_layout h (mount t root)
  have leaves := hbelow.root (by rw [isField, h.isField]; rfl)
  rw [← pairs_eq, ← WidgetTree.nodes_eq] at leaves
  have paths : (((t.nodes.filter isField)).map WidgetTree.path).Nodup :=
    h.placed.nodup.sublist (List.filter_sublist.map _)
  have pointers : (((Pointer.join (mount t root), t.path) :: below).map Prod.fst).Nodup := by
    have distinct := List.Nodup.of_map Prod.snd (leaves.paths ▸ paths)
    refine distinct.map_on ?_
    intro e he e' he' same
    obtain ⟨rel, ts, n, hat, rfl⟩ := leaves.reached e he
    obtain ⟨rel', ts', n', hat', rfl⟩ := leaves.reached e' he'
    have hts : ts = ts' := List.append_cancel_left (Pointer.join_injective same)
    subst hts
    rw [hat.eq_of_tokens h hat']
  refine ⟨_, holds_of_settles leaves.settles pointers ?_, leaves.paths, pointers, leaves.reached⟩
  exact h.placed.nodup.sublist (pairs_sublist _ t)

theorem path?_join (m : PointerMap) (tokens : List String) :
    m.path? (Pointer.join tokens) = m.byPointer.find? (Pointer.join tokens) := by
  rw [path?]
  split
  · next h =>
    cases tokens with
    | nil => rw [Pointer.join_nil] at h; cases h
    | cons token tokens => rw [Pointer.toList_join_cons] at h; simp at h
  · rfl

private theorem entries_perm {m : PointerMap} {left : List (String × Path)} (h : m.Holds left)
    (nodup : left.Nodup) : m.entries.Perm left := by
  have entries : m.entries.Nodup := SortedMap.nodup_entries _
  rw [List.perm_ext_iff_of_nodup entries nodup]
  intro e
  rw [← h.byPointer e.1 e.2, SortedMap.find?_eq_some_iff]
  rfl

private theorem length_fields {p : Path} {t : WidgetTree} (h : Layout p t) :
    (t.nodes.filter isField).length = t.fieldCount + 1 := by
  have root : isField t = true := by rw [isField, h.isField]; rfl
  rw [WidgetTree.nodes_eq, List.filter_cons_of_pos root, List.length_cons, WidgetTree.fieldCount,
    WidgetTree.nodesOf_eq, List.countP_eq_length_filter]
  rfl

private theorem mount_eq_nil {t : WidgetTree} {root : Path} (h : t.path = root) :
    mount t root = [] := by
  have below := Path.below?_append root []
  rw [List.append_nil] at below
  rw [mount, h, below]
  rfl

/-- The pointer of a field is made of tokens that lead to it. -/
theorem pointer?_ofTree {root : Path} {t n : WidgetTree} (h : Layout root t) (hn : n ∈ t.nodes)
    (field : n.widget.kind.isStructural = false) :
    ∃ rel tokens, At t rel tokens n ∧
      (ofTree t root).pointer? n.path = some (Pointer.join tokens) := by
  obtain ⟨left, holds, paths, -, reached⟩ := ofTree_holds h root
  have inside : n ∈ t.nodes.filter isField := List.mem_filter.2 ⟨hn, by rw [isField, field]; rfl⟩
  have hpath : n.path ∈ left.map Prod.snd := paths ▸ List.mem_map_of_mem inside
  obtain ⟨e, he, same⟩ := List.mem_map.1 hpath
  obtain ⟨rel, tokens, n', hat, rfl⟩ := reached e he
  obtain rfl : n' = n := h.placed.eq_of_path hat.mem_nodes hn same
  rw [mount_eq_nil h.path, List.nil_append] at he
  exact ⟨rel, tokens, hat, (holds.byPath _ _).2 he⟩

/-- What has a pointer is a field, and the tokens of the pointer lead to it. -/
theorem exists_at_of_pointer? {root : Path} {t n : WidgetTree} (h : Layout root t)
    (hn : n ∈ t.nodes) {q : String} (mapped : (ofTree t root).pointer? n.path = some q) :
    ∃ rel tokens, At t rel tokens n ∧ q = Pointer.join tokens := by
  obtain ⟨left, holds, -, -, reached⟩ := ofTree_holds h root
  obtain ⟨rel, tokens, n', hat, heq⟩ := reached _ ((holds.byPath _ _).1 mapped)
  obtain ⟨rfl, path⟩ := Prod.mk.inj heq
  obtain rfl : n = n' := h.placed.eq_of_path hn hat.mem_nodes path
  rw [mount_eq_nil h.path, List.nil_append]
  exact ⟨rel, tokens, hat, rfl⟩

/-- The pointer of a path leads back to the path. -/
theorem path?_of_pointer? {root p : Path} {t : WidgetTree} (h : Layout root t) {q : String}
    (mapped : (ofTree t root).pointer? p = some q) : (ofTree t root).path? q = some p := by
  obtain ⟨left, holds, -, -, reached⟩ := ofTree_holds h root
  have entry := (holds.byPath _ _).1 mapped
  obtain ⟨_, _, _, -, heq⟩ := reached _ entry
  obtain ⟨rfl, -⟩ := Prod.mk.inj heq
  rw [path?_join]
  exact (holds.byPointer _ _).2 entry

/-- A pointer that reads as tokens is mapped to the field that the tokens lead to. -/
theorem exists_at_of_path? {root p : Path} {t : WidgetTree} (h : Layout root t) {q : String}
    {tokens : List String} (mapped : (ofTree t root).path? q = some p)
    (read : Pointer.tokens? q = some tokens) : ∃ rel n, At t rel tokens n ∧ n.path = p := by
  obtain ⟨left, holds, -, -, reached⟩ := ofTree_holds h root
  rw [path?] at mapped
  split at mapped
  · next rest hrest =>
    rw [Pointer.tokens?_fragment hrest] at read
    cases read
  · obtain ⟨rel, ts, n, hat, heq⟩ := reached _ ((holds.byPointer _ _).1 mapped)
    obtain ⟨rfl, rfl⟩ := Prod.mk.inj heq
    rw [mount_eq_nil h.path, List.nil_append, Pointer.tokens?_join] at read
    cases read
    exact ⟨rel, n, hat, rfl⟩

/-- The map of a form holds each field under one pointer, and the two maps are inverse. -/
theorem pointers_are_bijective {options : CompileOptions} {root : Path} {d : SchemaDocument}
    {h : Hint} {input : Option Json} {t : RepeatTable} {form : CompiledForm} (accepted : d.Accepted)
    (reachable : t.Reachable) (hok : compileForm options root d h input t = .ok form) :
    let m := ofTree form.tree root
    let fields := form.tree.nodes.filter isField
    ((m.entries.map Prod.snd).Perm (fields.map WidgetTree.path) ∧
        (fields.map WidgetTree.path).Nodup ∧ m.size = form.tree.fieldCount + 1) ∧
      (∀ n ∈ fields, ∃ q, m.pointer? n.path = some q ∧ m.path? q = some n.path) ∧
      (∀ e ∈ m.entries, m.path? e.1 = some e.2 ∧ m.pointer? e.2 = some e.1) ∧
      (∀ n ∈ fields, ∀ n' ∈ fields, m.pointer? n.path = m.pointer? n'.path → n = n') ∧
      ∀ e ∈ m.entries, ∃ n ∈ fields, form.tree.find? e.2 = some n ∧
        ∃ rel tokens, At form.tree rel tokens n ∧ e = (Pointer.join tokens, n.path) := by
  have layout := layout_of_compileForm accepted reachable hok
  obtain ⟨left, holds, paths, pointers, reached⟩ := ofTree_holds layout root
  simp only [mount_eq_nil layout.path, List.nil_append] at reached
  intro m fields
  have entries : m.entries.Perm left := entries_perm holds (.of_map Prod.fst pointers)
  have nodup : (fields.map WidgetTree.path).Nodup :=
    layout.placed.nodup.sublist (List.filter_sublist.map _)
  have size : m.size = form.tree.fieldCount + 1 := by
    have lengths := congrArg List.length paths
    rw [List.length_map, List.length_map, length_fields layout] at lengths
    exact entries.length_eq.trans lengths
  have inverse : ∀ e ∈ left, m.path? e.1 = some e.2 ∧ m.pointer? e.2 = some e.1 := by
    intro e he
    obtain ⟨rel, tokens, n, hat, rfl⟩ := reached e he
    rw [path?_join]
    exact ⟨(holds.byPointer _ _).2 he, (holds.byPath _ _).2 he⟩
  have mapped : ∀ n ∈ fields, ∃ q, (q, n.path) ∈ left := by
    intro n hn
    have hpath : n.path ∈ left.map Prod.snd := paths ▸ List.mem_map_of_mem hn
    obtain ⟨⟨q, p⟩, he, rfl⟩ := List.mem_map.1 hpath
    exact ⟨q, he⟩
  refine ⟨⟨paths ▸ entries.map Prod.snd, nodup, size⟩, ?_, ?_, ?_, ?_⟩
  · intro n hn
    obtain ⟨q, he⟩ := mapped n hn
    obtain ⟨first, second⟩ := inverse _ he
    exact ⟨q, second, first⟩
  · exact fun e he => inverse e (entries.mem_iff.1 he)
  · intro n hn n' hn' same
    obtain ⟨q, he⟩ := mapped n hn
    obtain ⟨q', he'⟩ := mapped n' hn'
    obtain ⟨first, second⟩ := inverse _ he
    obtain ⟨first', second'⟩ := inverse _ he'
    rw [second, second'] at same
    cases same
    have hpath := Option.some.inj (first.symm.trans first')
    exact layout.placed.eq_of_path (List.mem_filter.1 hn).1 (List.mem_filter.1 hn').1 hpath
  · intro e he
    obtain ⟨rel, tokens, n, hat, rfl⟩ := reached e (entries.mem_iff.1 he)
    have field : isField n = true := by rw [isField, (hat.layout layout).isField]; rfl
    exact ⟨n, List.mem_filter.2 ⟨hat.mem_nodes, field⟩, layout.placed.find? hat.mem_nodes,
      rel, tokens, hat, rfl⟩

/-- Rows of texts beside a name that needs an escape. -/
private def rowsSchema : Json :=
  .object
    [("type", .string "object"),
      ("properties", .object
        [("a/b", .object [("type", .string "string")]),
          ("rows", .object
            [("type", .string "array"),
              ("items", .object
                [("type", .string "array"),
                  ("items", .object [("type", .string "string")])])])])]

private def rowsDocument : SchemaDocument :=
  let text : Schema := ⟨[.string], none, none, none, none, .scalar⟩
  let row : Schema := ⟨[.array], none, none, none, none, .array text⟩
  let rows : Schema := ⟨[.array], none, none, none, none, .array row⟩
  ⟨rowsSchema, [.object], none, none, none, none,
    .object [("a/b", text), ("rows", rows)] [] none⟩

/-- One row is left, the second of two, and in it the first and the third text. -/
private def rowsTable : RepeatTable :=
  (RepeatTable.empty.set ⟨[], "rows"⟩ ⟨[1], 2, []⟩).set ⟨[.property "rows"], "1"⟩ ⟨[0, 2], 3, []⟩

theorem pointers_are_bijective_in_rows : ∃ form,
    rowsDocument.Accepted ∧ rowsTable.Reachable ∧
      compileForm {} [] rowsDocument {} none rowsTable = .ok form ∧ form.tree.fieldCount = 5 ∧
        let m := ofTree form.tree []
        let fields := form.tree.nodes.filter isField
        ((m.entries.map Prod.snd).Perm (fields.map WidgetTree.path) ∧
            (fields.map WidgetTree.path).Nodup ∧ m.size = form.tree.fieldCount + 1) ∧
          (∀ n ∈ fields, ∃ q, m.pointer? n.path = some q ∧ m.path? q = some n.path) ∧
          (∀ e ∈ m.entries, m.path? e.1 = some e.2 ∧ m.pointer? e.2 = some e.1) ∧
          (∀ n ∈ fields, ∀ n' ∈ fields, m.pointer? n.path = m.pointer? n'.path → n = n') ∧
          ∀ e ∈ m.entries, ∃ n ∈ fields, form.tree.find? e.2 = some n ∧
            ∃ rel tokens, At form.tree rel tokens n ∧ e = (Pointer.join tokens, n.path) := by
  have distinct : rowsSchema.Distinct := by simp [rowsSchema]
  have accepted : rowsDocument.Accepted := ⟨32, rowsSchema, distinct, rfl⟩
  have reachable : rowsTable.Reachable := .set _ (by decide) (.set _ (by decide) .empty)
  have fields : (compileForm {} [] rowsDocument {} none rowsTable).map
      (fun form => form.tree.fieldCount) = .ok 5 := by
    rw [rowsTable, RepeatTable.set_of_inOrder _ _ (by decide),
      RepeatTable.set_of_inOrder _ _ (by decide)]
    rfl
  cases hok : compileForm {} [] rowsDocument {} none rowsTable with
  | error e => rw [hok] at fields; cases fields
  | ok form =>
      rw [hok] at fields
      exact ⟨form, accepted, reachable, rfl, Except.ok.inj fields,
        pointers_are_bijective accepted reachable hok⟩

end PointerMap
end FormTree
