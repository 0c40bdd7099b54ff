import FormTree.Proofs.Widget.Placed

/-!
The layout of a form: a widget stands alone, holds a widget for each of some
properties, or holds an item for each of some indices. An item is a wrapper
around its element and the control that removes it.
-/

namespace FormTree
namespace WidgetTree

/-- A control without widgets below it. -/
structure IsControl (p : Path) (kind : Control) (t : WidgetTree) : Prop where
  path : t.path = p ++ [.control kind]
  isControl : t.widget.kind.isControl = true
  leaf : t.children = []

/-- The item under an index, around its element. -/
structure IsItem (p : Path) (i : Nat) (element item : WidgetTree) : Prop where
  name : item.widget.name = toString i
  path : item.path = p ++ [.index i]
  kind : item.widget.kind = .removableItem
  children : ∃ control, IsControl (p ++ [.index i]) .remove control ∧
    item.children = [element, control]

/-- An item of a repeated field with its index and element. -/
structure Row where
  index : Nat
  element : WidgetTree
  item : WidgetTree

inductive Layout : Path → WidgetTree → Prop
  | single {p : Path} {w : Widget} (path : w.path = p) (kind : w.kind.isStructural = false) :
      Layout p (.node w [])
  | group {p : Path} {w : Widget} {rows : List (String × WidgetTree)} (path : w.path = p)
      (kind : w.kind = .group) (nodup : (rows.map Prod.fst).Nodup)
      (below : ∀ r ∈ rows, Layout (p ++ [.property r.1]) r.2) :
      Layout p (.node w (rows.map Prod.snd))
  | repeated {p : Path} {w : Widget} {rows : List Row} {add : WidgetTree} (path : w.path = p)
      (kind : w.kind = .repeatable) (nodup : (rows.map Row.index).Nodup)
      (items : ∀ r ∈ rows, IsItem p r.index r.element r.item)
      (below : ∀ r ∈ rows, Layout (p ++ [.index r.index, .wrapper]) r.element)
      (control : IsControl p .addMore add) :
      Layout p (.node w (rows.map Row.item ++ [add]))

theorem IsControl.placed {p : Path} {kind : Control} {t : WidgetTree} (h : IsControl p kind t) :
    Placed (p ++ [.control kind]) t := by
  obtain ⟨w, children⟩ := t
  obtain rfl : children = [] := h.leaf
  exact .leaf h.path

theorem IsItem.placed {p : Path} {i : Nat} {element item : WidgetTree}
    (h : IsItem p i element item) (he : Placed (p ++ [.index i, .wrapper]) element) :
    Placed (p ++ [.index i]) item := by
  obtain ⟨w, children⟩ := item
  obtain ⟨control, hcontrol, hchildren⟩ := h.children
  obtain rfl : children = [element, control] := hchildren
  let rows : List (Segment × WidgetTree) := [(.wrapper, element), (.control .remove, control)]
  have nodup : (rows.map Prod.fst).Nodup := by simp [rows]
  have below : ∀ r ∈ rows, Placed (p ++ [.index i] ++ [r.1]) r.2 := by
    refine List.forall_mem_cons.2 ⟨?_, List.forall_mem_singleton.2 hcontrol.placed⟩
    simpa using he
  exact .node h.path nodup below

namespace Layout

variable {p : Path} {t : WidgetTree}

theorem placed (h : Layout p t) : Placed p t := by
  induction h with
  | single path _ => exact .leaf path
  | @group p w rows path _ nodup _ ih =>
      have same : rows.map Prod.snd =
          (rows.map fun r => (Segment.property r.1, r.2)).map Prod.snd := by
        simp
      rw [same]
      refine .node path ?_ ?_
      · have inj : Function.Injective Segment.property := fun _ _ h => Segment.property.inj h
        simpa [Function.comp_def] using nodup.map inj
      · intro r hr
        obtain ⟨m, hm, rfl⟩ := List.mem_map.1 hr
        exact ih m hm
  | @repeated p w rows add path _ nodup items _ control ih =>
      have same : rows.map Row.item ++ [add] =
          ((rows.map fun r : Row => (Segment.index r.index, r.item)) ++
            [(Segment.control .addMore, add)]).map Prod.snd := by
        simp
      rw [same]
      refine .node path ?_ ?_
      · have inj : Function.Injective Segment.index := fun _ _ h => Segment.index.inj h
        simpa [Function.comp_def, List.nodup_append] using nodup.map inj
      · intro r hr
        rcases List.mem_append.1 hr with hr | hr
        · obtain ⟨m, hm, rfl⟩ := List.mem_map.1 hr
          exact (items m hm).placed (ih m hm)
        · obtain rfl := List.mem_singleton.1 hr
          exact control.placed

end Layout
end WidgetTree
end FormTree
