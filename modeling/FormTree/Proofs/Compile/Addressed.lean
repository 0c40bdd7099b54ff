import FormTree.Cli
import FormTree.Proofs.Compile.Items
import FormTree.Proofs.Compile.Stored
import FormTree.Proofs.Path.Printed
import FormTree.Proofs.Repeat.Exact

/-!
Repeated fields addressed by text. The key that is read from the printed path of a
field is its own when the path is addressable. Otherwise it is the key of something
else, and no edit under it comes to the field.
-/

namespace FormTree

theorem Cli.fieldOf_ok_iff {text : String} {k : FieldKey} :
    Cli.fieldOf text = .ok k ↔ FieldKey.ofPath? (Path.parse text) = some k := by
  rw [Cli.fieldOf]
  cases FieldKey.ofPath? (Path.parse text) with
  | none => exact iff_of_false nofun nofun
  | some k' =>
      exact ⟨fun h => congrArg some (Except.ok.inj h), fun h => congrArg _ (Option.some.inj h)⟩

variable {options : CompileOptions} {root : Path} {d : SchemaDocument} {h : Hint}
  {input : Option Json} {t : RepeatTable} {form : CompiledForm} {n : WidgetTree}

/-- The printed path of a repeated field gives the key of the record that has its items iff it is
addressable, and else no edit under the key that it gives changes that record. -/
theorem addressed_by_text_iff (accepted : d.Accepted) (reachable : t.Reachable)
    (hok : compileForm options root d h input t = .ok form) (hn : n ∈ form.tree.nodes)
    (kind : n.widget.kind = .repeatable) :
    ∃ k live, FieldKey.ofPath? n.widget.propPath = some k ∧ form.table.find? k = some live ∧
      live.location = n.path ∧ n.HoldsItems live.indices ∧
        (Cli.fieldOf n.widget.propPath.toText = .ok k ↔ n.widget.propPath.Addressable) ∧
        (¬n.widget.propPath.Addressable → ∀ k', Cli.fieldOf n.widget.propPath.toText = .ok k' →
          (∀ i, (form.table.remove k' i).2.find? k = some live) ∧
            ∀ i t', form.table.add? k' = some (i, t') → t'.find? k = some live) := by
  obtain ⟨k, live, key, known, location, -, items⟩ :=
    (settled_of_compileForm accepted reachable hok).items hn kind
  have admits := admits_of_compileForm accepted reachable hok n hn
  have inOrder := (compileForm_ok hok).1.inOrder reachable.inOrder
  have read : Cli.fieldOf n.widget.propPath.toText = .ok k ↔ n.widget.propPath.Addressable :=
    Cli.fieldOf_ok_iff.trans
      (Path.ofPath?_parse_toText_iff admits.withoutSynthetic_propPath admits.propPath_fits key)
  refine ⟨k, live, key, known, location, items, read, fun other k' hk' => ?_⟩
  have apart : k ≠ k' := by
    rintro rfl
    exact other (read.1 hk')
  have exact := RepeatTable.exact_of_inOrder inOrder k'
  refine ⟨fun i => ?_, fun i t' added => ?_⟩
  · rw [exact.removed, if_neg apart, known]
  · rw [exact.added i t' added, if_neg apart, known]

private def isThird (n : WidgetTree) : Bool := n.isRepeated && n.widget.propPath.toText == "/rows/2"

private theorem compileRows_third :
    (compileRows none .twoRows).map (fun form =>
      (form.tree.nodes.find? isThird).map fun n => n.widget.propPath) =
        .ok (some [.property "rows", .index 2]) := by decide +kernel

theorem addressed_by_text_iff_in_rows : ∃ form n live,
    rowsOfTexts.Accepted ∧ RepeatTable.twoRows.Reachable ∧
      compileRows none .twoRows = .ok form ∧ n ∈ form.tree.nodes ∧
        n.widget.kind = .repeatable ∧ n.widget.propPath.toText = "/rows/2" ∧
          Cli.fieldOf "/rows/2" = .ok (.row 2) ∧ form.table.find? (.row 2) = some live ∧
            n.HoldsItems live.indices := by
  have found := compileRows_third
  cases hok : compileRows none .twoRows with
  | error e => rw [hok] at found; cases found
  | ok form =>
      rw [hok] at found
      obtain ⟨n, hn, propPath⟩ := Option.map_eq_some_iff.1 (Except.ok.inj found)
      have inside := List.mem_of_find?_eq_some hn
      have third := List.find?_some hn
      rw [isThird, Bool.and_eq_true, WidgetTree.isRepeated_iff, beq_iff_eq] at third
      obtain ⟨k, live, key, known, -, items, read, -⟩ :=
        addressed_by_text_iff rowsOfTexts_accepted RepeatTable.twoRows_reachable hok inside third.1
      have addressable : n.widget.propPath.Addressable := by
        rw [propPath]
        refine ⟨by simp, ?_, nofun⟩
        rintro name hname ⟨i, digits, -⟩
        cases List.mem_singleton.1 hname
        exact absurd digits (by decide)
      rw [propPath] at key
      cases key
      exact ⟨form, n, live, rowsOfTexts_accepted, RepeatTable.twoRows_reachable, rfl, inside,
        third.1, third.2, third.2 ▸ read.2 addressable, known, items⟩

/-- Tags in a group that has a number for its name. -/
private def numberedGroup : SchemaDocument :=
  let tag : Schema := ⟨[.string], none, none, none, none, .scalar⟩
  let tags : Schema := ⟨[.array], none, none, none, none, .array tag⟩
  let group : Schema := ⟨[.object], none, none, none, none, .object [("tags", tags)] [] none⟩
  { raw := .object
      [("type", .string "object"),
        ("properties", .object
          [("0", .object
            [("type", .string "object"),
              ("properties", .object
                [("tags", .object
                  [("type", .string "array"),
                    ("items", .object [("type", .string "string")])])])])])]
    root := ⟨[.object], none, none, none, none, .object [("0", group)] [] none⟩ }

private theorem compile_numberedGroup :
    (compileForm {} [] numberedGroup {} none .empty).map (fun form =>
      ((form.tree.nodes.find? WidgetTree.isRepeated).map fun n => n.widget.propPath,
        (form.table.find? ⟨[.index 0], "tags"⟩).isSome)) =
      .ok (some [.property "0", .property "tags"], false) := by decide +kernel

/-- The text of the tags is read as the tags of an item. -/
theorem numbered_group_not_addressed : ∃ form n k k',
    numberedGroup.Accepted ∧ RepeatTable.empty.Reachable ∧
      compileForm {} [] numberedGroup {} none .empty = .ok form ∧ n ∈ form.tree.nodes ∧
        n.widget.kind = .repeatable ∧ n.widget.propPath.toText = "/0/tags" ∧
          FieldKey.ofPath? n.widget.propPath = some k ∧ Cli.fieldOf "/0/tags" = .ok k' ∧ k' ≠ k ∧
            form.table.find? k' = none := by
  have shown := compile_numberedGroup
  cases hok : compileForm {} [] numberedGroup {} none .empty with
  | error e => rw [hok] at shown; cases shown
  | ok form =>
      rw [hok] at shown
      obtain ⟨found, unknown⟩ := Prod.mk.inj (Except.ok.inj shown)
      obtain ⟨n, hn, propPath⟩ := Option.map_eq_some_iff.1 found
      have kind := WidgetTree.isRepeated_iff.1 (List.find?_some hn)
      refine ⟨form, n, ⟨[.property "0"], "tags"⟩, ⟨[.index 0], "tags"⟩,
        ⟨32, numberedGroup.raw, by simp [numberedGroup], rfl⟩, .empty, rfl,
        List.mem_of_find?_eq_some hn, kind, ?_, ?_, rfl, by decide, ?_⟩
      · rw [propPath]
        rfl
      · rw [propPath]
        rfl
      · simpa using unknown

end FormTree
