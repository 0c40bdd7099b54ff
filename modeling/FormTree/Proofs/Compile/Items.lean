import FormTree.Proofs.Compile.Settled

/-!
The items of a settled tree. Each repeated field holds an item for every index of
its record, in their order, and after them the control that adds one.
-/

namespace FormTree

open WidgetTree (IsControl IsItem Retouched Row)

namespace WidgetTree

/-- The item wraps its element, and its control removes this very item. -/
structure Removable (p : Path) (r : Row) : Prop where
  item : IsItem p r.index r.element r.item
  element : r.element.path = p ++ [.index r.index, .wrapper]
  control : ∃ remove, r.item.children = [r.element, remove] ∧
    IsControl (p ++ [.index r.index]) .remove remove ∧ remove.widget.kind = .removeControl ∧
      remove.widget.delta = some r.index

/-- The tree holds a removable item for each index, and then the add control. -/
def HoldsItems (t : WidgetTree) (indices : List Nat) : Prop :=
  ∃ (rows : List Row) (add : WidgetTree), t.children = rows.map Row.item ++ [add] ∧
    rows.map Row.index = indices ∧ (∀ r ∈ rows, Removable t.path r) ∧
      IsControl t.path .addMore add ∧ add.widget.kind = .addControl

end WidgetTree

namespace Compile

variable {c : Context} {T : RepeatTable} {name : String} {p : Path} {h : Hint}
  {input : Option Json} {s : Schema} {tree n : WidgetTree}

theorem not_repeatable_of_single {t t' : RepeatTable}
    (hok : node c t name p h input s = .ok (tree, t')) (hr : s.role h = .single)
    (hn : n ∈ tree.nodes) : n.widget.kind ≠ .repeatable := by
  obtain ⟨-, w, rfl, -, shows⟩ := node_single hok hr
  obtain rfl : n = .node w [] := by simpa [WidgetTree.nodes_node] using hn
  intro kind
  change w.kind = _ at kind
  cases shows with
  | constant markup _ => exact absurd (markup.symm.trans kind) nofun
  | entered input _ => rw [kind] at input; cases input

section Rows

variable {live : LiveItems} {title : String} {rows : List (Nat × WidgetTree)}

theorem holdsItems_of_rows (all : rows.map Prod.fst = live.indices)
    (elements : ∀ r ∈ rows, r.2.path = n.path ++ [.index r.1, .wrapper])
    (children : n.children = rows.map (c.heldItem n.path title) ++ [c.addControl n.path]) :
    n.HoldsItems live.indices := by
  let element (r : Nat × WidgetTree) : WidgetTree := (wrapItem_eq c n.path title r.1 r.2).choose
  have spec (r : Nat × WidgetTree) := (wrapItem_eq c n.path title r.1 r.2).choose_spec
  refine ⟨rows.map fun r => ⟨r.1, element r, c.heldItem n.path title r⟩, c.addControl n.path,
    ?_, ?_, ?_, ⟨rfl, rfl, rfl⟩, rfl⟩
  · rw [List.map_map]
    exact children
  · rw [List.map_map, ← all]
    rfl
  · intro row hrow
    obtain ⟨r, hr, rfl⟩ := List.mem_map.1 hrow
    obtain ⟨retouched, wrapped, parts⟩ := spec r
    exact ⟨wrapped, retouched.path.trans (elements r hr), _, parts, ⟨rfl, rfl, rfl⟩, rfl, rfl⟩

/-- A repeated field, with the record and the compiled elements that it was built from. -/
structure Expands (c : Context) (T : RepeatTable) (n : WidgetTree) (key : FieldKey)
    (live : LiveItems) (title : String) (rows : List (Nat × WidgetTree)) : Prop where
  field : FieldKey.ofPath? n.widget.propPath = some key
  known : T.find? key = some live
  location : live.location = n.path
  cardinality : n.widget.cardinality = some ⟨live.max?, true⟩
  all : rows.map Prod.fst = live.indices
  elements : ∀ r ∈ rows, r.2.path = n.path ++ [.index r.1, .wrapper]
  children : n.children = rows.map (c.heldItem n.path title) ++ [c.addControl n.path]

theorem Expands.retouched {key : FieldKey} {m : WidgetTree}
    (expands : Expands c T n key live title rows) (same : Retouched n m) :
    Expands c T m key live title rows := by
  obtain ⟨field, known, location, cardinality, all, elements, children⟩ := expands
  rw [← same.path] at location elements children
  exact ⟨same.propPath ▸ field, known, location, same.cardinality.trans cardinality, all, elements,
    same.children.trans children⟩

end Rows

/-- The repeated fields of a settled tree are built from their records. -/
theorem Settled.expands (settled : Settled c T name p h input s tree) (hn : n ∈ tree.nodes)
    (kind : n.widget.kind = .repeatable) :
    ∃ key live title rows, Expands c T n key live title rows := by
  -- A field inside the tree was retouched, which leaves alone all that is said here.
  have moved {m n : WidgetTree} (same : Retouched m n)
      (hm : ∃ key live title rows, Expands c T m key live title rows) :
      ∃ key live title rows, Expands c T n key live title rows := by
    obtain ⟨key, live, title, rows, expands⟩ := hm
    exact ⟨key, live, title, rows, expands.retouched same⟩
  induction settled generalizing n with
  | single role built => exact absurd kind (not_repeatable_of_single (built T) role hn)
  | group _ _ _ _ ih =>
      rcases exists_of_mem_group hn with rfl | ⟨r, hr, m, hm, same⟩
      · cases kind
      · exact moved same (ih r hr hm (same.kind.symm.trans kind))
  | @repeated _ _ _ _ _ _ key live rows _ _ field known location all below ih =>
      rcases exists_of_mem_repeatable rfl hn kind with rfl | ⟨r, hr, m, hm, same⟩
      · refine ⟨key, live, _, rows, field, known, location, rfl, all, fun r hr => ?_, rfl⟩
        obtain ⟨place, hplace⟩ := List.mem_iff_getElem?.1 hr
        exact (stands_of_node (below place r hplace).node).path
      · obtain ⟨place, hplace⟩ := List.mem_iff_getElem?.1 hr
        exact moved same (ih place r hplace hm (same.kind.symm.trans kind))

/-- The repeated fields of a settled tree hold what the table says. -/
theorem Settled.items (settled : Settled c T name p h input s tree) (hn : n ∈ tree.nodes)
    (kind : n.widget.kind = .repeatable) :
    ∃ k live, FieldKey.ofPath? n.widget.propPath = some k ∧ T.find? k = some live ∧
      live.location = n.path ∧ n.widget.cardinality = some ⟨live.max?, true⟩ ∧
        n.HoldsItems live.indices := by
  obtain ⟨key, live, title, rows, expands⟩ := settled.expands hn kind
  exact ⟨key, live, expands.field, expands.known, expands.location, expands.cardinality,
    holdsItems_of_rows expands.all expands.elements expands.children⟩

end Compile
end FormTree
