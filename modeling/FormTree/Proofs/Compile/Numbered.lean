import FormTree.Proofs.Compile.ItemTitle
import FormTree.Proofs.Compile.Items

/-!
Items told apart by their titles. A place for the number stays where the title of
the field is put in, and all of the places are filled with the same digits. So the
title of an item tells its index, whatever the format and the title of the field are.
-/

namespace FormTree

namespace CompileOptions

open Config (numberPlace)

/-- Under a format with a place for the number, the title of an item tells its index. -/
theorem itemTitle_injective {o : CompileOptions}
    (numbered : Text.contains o.itemTitleFormat numberPlace = true) (title : String) :
    Function.Injective (o.itemTitle title) := by
  intro i j same
  have placed : 0 < Text.occurrences numberPlace.toList
      (fillChars title.toList numberPlace.toList o.itemTitleFormat.toList) :=
    Nat.lt_of_lt_of_le (apart_numberPlace.occurrences_pos_iff.2 (Text.occursIn_iff.1 numbered))
      (occurrences_le_fillChars _ _)
  rw [itemTitle_eq, itemTitle_eq, String.ofList_inj] at same
  have digits := apart_numberPlace.image_eq_of_replaceChars placed same
  exact Nat.succ.inj (Pointer.toString_injective (String.toList_inj.1 digits))

end CompileOptions

namespace WidgetTree

/-- The titles of the items that a widget holds, in their order. -/
def itemTitles (n : WidgetTree) : List String :=
  (n.children.filter fun m => m.widget.kind = .removableItem).map fun m => m.widget.title

end WidgetTree

namespace Compile

variable {c : Context} {T : RepeatTable} {n : WidgetTree} {key : FieldKey} {live : LiveItems}
  {title : String} {rows : List (Nat × WidgetTree)}

theorem heldItem_kind_title (c : Context) (p : Path) (title : String) (r : Nat × WidgetTree) :
    (c.heldItem p title r).widget.kind = .removableItem ∧
      (c.heldItem p title r).widget.title = c.options.itemTitle title r.1 := by
  obtain ⟨i, w, children⟩ := r
  exact ⟨rfl, rfl⟩

/-- The items of a field have the titles that the title of the field gives their indices. -/
theorem Expands.itemTitles (expands : Expands c T n key live title rows) :
    n.itemTitles = live.indices.map (c.options.itemTitle title) := by
  have items : (rows.map (c.heldItem n.path title)).filter
      (fun m => m.widget.kind = .removableItem) = rows.map (c.heldItem n.path title) := by
    refine List.filter_eq_self.2 (List.forall_mem_map.2 fun r _ => decide_eq_true ?_)
    exact (heldItem_kind_title c n.path title r).1
  have control : [c.addControl n.path].filter (fun m => m.widget.kind = .removableItem) = [] := rfl
  rw [WidgetTree.itemTitles, expands.children, List.filter_append, items, control, List.append_nil,
    ← expands.all, List.map_map, List.map_map]
  exact List.map_congr_left fun r _ => (heldItem_kind_title c n.path title r).2

end Compile

/-- The items of a repeated field have different titles, if the format has a place for the
number. -/
theorem itemTitles_nodup {options : CompileOptions} {root : Path} {d : SchemaDocument} {h : Hint}
    {input : Option Json} {t : RepeatTable} {form : CompiledForm} (accepted : d.Accepted)
    (reachable : t.Reachable)
    (numbered : Text.contains options.itemTitleFormat Config.numberPlace = true)
    (hok : compileForm options root d h input t = .ok form) :
    ∀ n ∈ form.tree.nodes, n.widget.kind = .repeatable → n.itemTitles.Nodup := by
  intro n hn kind
  have inOrder : form.table.InOrder := ((compileForm_ok hok).1).inOrder reachable.inOrder
  obtain ⟨key, live, title, rows, expands⟩ :=
    (settled_of_compileForm accepted reachable hok).expands hn kind
  have ordered : live.InOrder := RepeatTable.record_of_find? expands.known ▸ inOrder key
  rw [expands.itemTitles]
  exact ordered.nodup.map (CompileOptions.itemTitle_injective numbered title)

/-- Rows whose title is a place for the number itself. -/
private def numberedRows : Hint := { children := [("rows", { title := some Config.numberPlace })] }

/-- Two rows whose numbers, one and eleven, have the same digit. -/
private def onesRows : RepeatTable :=
  ⟨SortedMap.empty.insert .rows ⟨[0, 10], 11, []⟩, false⟩

private theorem onesRows_reachable : onesRows.Reachable := by
  have same : RepeatTable.empty.set .rows ⟨[0, 10], 11, []⟩ = onesRows :=
    RepeatTable.set_of_inOrder _ _ (by decide)
  exact same ▸ .set .rows (by decide) .empty

private def numberAfterTitle : CompileOptions :=
  { itemTitleFormat := CompileOptions.titlePlace ++ Config.numberPlace }

private theorem compile_onesRows :
    (compileForm numberAfterTitle [.property "form"] rowsOfTexts numberedRows none onesRows).map
      (fun form => (form.tree.nodes.find? fun n => n.widget.kind = .repeatable).map
        WidgetTree.itemTitles) = .ok (some ["11", "1111"]) := by decide +kernel

/-- The number is put into the title of the field too, and still tells the rows apart. -/
theorem itemTitles_nodup_in_rows : ∃ form n,
    rowsOfTexts.Accepted ∧ onesRows.Reachable ∧
      Text.contains numberAfterTitle.itemTitleFormat Config.numberPlace = true ∧
        compileForm numberAfterTitle [.property "form"] rowsOfTexts numberedRows none onesRows =
            .ok form ∧
          n ∈ form.tree.nodes ∧ n.widget.kind = .repeatable ∧
            n.itemTitles = ["11", "1111"] ∧ n.itemTitles.Nodup := by
  have numbered : Text.contains numberAfterTitle.itemTitleFormat Config.numberPlace = true := by
    decide
  have found := compile_onesRows
  cases hok : compileForm numberAfterTitle [.property "form"] rowsOfTexts numberedRows none
      onesRows with
  | error e => rw [hok] at found; cases found
  | ok form =>
      rw [hok] at found
      obtain ⟨n, hn, titles⟩ := Option.map_eq_some_iff.1 (Except.ok.inj found)
      have inside := List.mem_of_find?_eq_some hn
      have kind : n.widget.kind = .repeatable := by simpa using List.find?_some hn
      exact ⟨form, n, rowsOfTexts_accepted, onesRows_reachable, numbered, rfl, inside, kind, titles,
        itemTitles_nodup rowsOfTexts_accepted onesRows_reachable numbered hok n inside kind⟩

end FormTree
