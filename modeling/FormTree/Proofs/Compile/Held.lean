import FormTree.Proofs.Compile.Node
import FormTree.Proofs.Widget.Retouched

/-!
What a group or a repeated field makes of the trees compiled for it. A property is
marked as required or not, and an element is wrapped as an item. What is inside
them is inside the whole, and there is nothing else.
-/

namespace FormTree

open WidgetTree (At IsItem Retouched)

namespace Compile

/-- What a group makes of a compiled property. -/
def heldProperty (required : List String) (r : (String × Schema) × WidgetTree) : WidgetTree :=
  withRequired r.1.2 (required.contains r.1.1) r.2

/-- What a repeated field makes of a compiled element. -/
def Context.heldItem (c : Context) (p : Path) (title : String) (r : Nat × WidgetTree) :
    WidgetTree :=
  c.wrapItem p title r.1 r.2

variable {c : Context} {p : Path} {h : Hint} {w : Widget} {n : WidgetTree}

theorem retouched_heldProperty (required : List String) (r : (String × Schema) × WidgetTree) :
    Retouched r.2 (heldProperty required r) := by
  obtain ⟨m, w, children⟩ := r
  rw [heldProperty, withRequired]
  split
  · exact ⟨rfl, _, _, _, rfl⟩
  · exact ⟨rfl, _, _, _, rfl⟩

theorem wrapItem_eq (c : Context) (p : Path) (title : String) (i : Nat) (t : WidgetTree) :
    ∃ element, Retouched t element ∧ IsItem p i element (c.wrapItem p title i t) ∧
      (c.wrapItem p title i t).children = [element, c.removeControl (p ++ [.index i]) i] := by
  obtain ⟨w, children⟩ := t
  rw [Context.wrapItem]
  generalize c.options.itemTitle title i = itemTitle
  let element : Widget := { w with required := false, description := none, title := itemTitle }
  refine ⟨.node element children, ⟨rfl, itemTitle, none, false, rfl⟩, ?_, rfl⟩
  exact ⟨rfl, rfl, rfl, c.removeControl (p ++ [.index i]) i, ⟨rfl, rfl, rfl⟩, rfl⟩

section Group

variable {required : List String} {rows : List ((String × Schema) × WidgetTree)}
  {r : (String × Schema) × WidgetTree}

theorem exists_mem_group (hr : r ∈ rows) (hn : n ∈ r.2.nodes) :
    ∃ m ∈ (WidgetTree.node w (rows.map (heldProperty required))).nodes, Retouched n m := by
  obtain ⟨m, hm, same⟩ := (retouched_heldProperty required r).exists_node' hn
  exact ⟨m, WidgetTree.mem_nodes_iff.2 (.inr ⟨_, List.mem_map_of_mem hr, hm⟩), same⟩

theorem exists_at_group {rel : Path} {tokens : List String} (kind : w.kind = .group) (hr : r ∈ rows)
    (path : r.2.path = w.path ++ [.property r.1.1]) (hat : At r.2 rel tokens n) :
    ∃ m, At (.node w (rows.map (heldProperty required))) (.property r.1.1 :: rel)
      (r.1.1 :: tokens) m ∧ Retouched n m := by
  have retouched := retouched_heldProperty required r
  obtain ⟨m, hat, same⟩ := retouched.exists_at hat
  exact ⟨m, .property kind (List.mem_map_of_mem hr) (retouched.path.trans path) hat, same⟩

theorem exists_of_mem_group
    (hn : n ∈ (WidgetTree.node w (rows.map (heldProperty required))).nodes) :
    n = .node w (rows.map (heldProperty required)) ∨
      ∃ r ∈ rows, ∃ m ∈ r.2.nodes, Retouched m n := by
  rcases WidgetTree.mem_nodes_iff.1 hn with rfl | ⟨child, hc, hn⟩
  · exact .inl rfl
  · obtain ⟨r, hr, rfl⟩ := List.mem_map.1 hc
    exact .inr ⟨r, hr, (retouched_heldProperty required r).exists_node hn⟩

end Group

section Repeated

variable {live : LiveItems} {title : String} {rows : List (Nat × WidgetTree)}
  {r : Nat × WidgetTree}

theorem exists_mem_repeatable (hr : r ∈ rows) (hn : n ∈ r.2.nodes) :
    ∃ m ∈ (c.repeatable h w live (rows.map (c.heldItem p title))).nodes, Retouched n m := by
  obtain ⟨element, retouched, -, children⟩ := wrapItem_eq c p title r.1 r.2
  obtain ⟨m, hm, same⟩ := retouched.exists_node' hn
  have item := List.mem_map_of_mem (f := c.heldItem p title) hr
  refine ⟨m, WidgetTree.mem_nodes_iff.2 (.inr ⟨_, List.mem_append_left _ item, ?_⟩), same⟩
  exact WidgetTree.mem_nodes_iff.2 (.inr ⟨element, children ▸ List.mem_cons_self, hm⟩)

theorem exists_at_repeatable {place : Nat} {rel : Path} {tokens : List String}
    (hr : rows[place]? = some r) (hat : At r.2 rel tokens n) :
    ∃ m, At (c.repeatable h w live (rows.map (c.heldItem w.path title)))
      (.index r.1 :: .wrapper :: rel) (toString place :: tokens) m ∧ Retouched n m := by
  obtain ⟨element, retouched, wrapped, -⟩ := wrapItem_eq c w.path title r.1 r.2
  obtain ⟨m, hat, same⟩ := retouched.exists_at hat
  refine ⟨m, .item rfl ?_ wrapped hat, same⟩
  change (rows.map (c.heldItem w.path title) ++ [_])[place]? = _
  rw [List.getElem?_append_left (by simpa using (List.getElem?_eq_some_iff.1 hr).1),
    List.getElem?_map, hr]
  rfl

/-- Besides the field there are its control, its items with theirs, and what is inside the
elements. -/
theorem all_of_mem_repeatable (hw : w.path = p)
    (hn : n ∈ (c.repeatable h w live (rows.map (c.heldItem p title))).nodes) :
    n = c.repeatable h w live (rows.map (c.heldItem p title)) ∨ n = c.addControl p ∨
      ∃ r ∈ rows, n = c.heldItem p title r ∨ n = c.removeControl (p ++ [.index r.1]) r.1 ∨
        ∃ m ∈ r.2.nodes, Retouched m n := by
  subst hw
  rcases WidgetTree.mem_nodes_iff.1 hn with rfl | ⟨child, hc, hn⟩
  · exact .inl rfl
  · rcases List.mem_append.1 hc with hc | hc
    · obtain ⟨r, hr, rfl⟩ := List.mem_map.1 hc
      obtain ⟨element, retouched, -, children⟩ := wrapItem_eq c w.path title r.1 r.2
      rcases WidgetTree.mem_nodes_iff.1 hn with rfl | ⟨inner, hi, hn⟩
      · exact .inr (.inr ⟨r, hr, .inl rfl⟩)
      · rw [Context.heldItem, children] at hi
        rcases List.mem_cons.1 hi with rfl | hi
        · exact .inr (.inr ⟨r, hr, .inr (.inr (retouched.exists_node hn))⟩)
        · cases List.mem_singleton.1 hi
          cases List.mem_singleton.1 hn
          exact .inr (.inr ⟨r, hr, .inr (.inl rfl)⟩)
    · cases List.mem_singleton.1 hc
      cases List.mem_singleton.1 hn
      exact .inr (.inl rfl)

/-- What is not a control is the field, an item of it or inside the element of one. -/
theorem cases_of_mem_repeatable (hw : w.path = p)
    (hn : n ∈ (c.repeatable h w live (rows.map (c.heldItem p title))).nodes)
    (noControl : n.widget.kind.isControl = false) :
    n = c.repeatable h w live (rows.map (c.heldItem p title)) ∨
      ∃ r ∈ rows, n = c.heldItem p title r ∨ ∃ m ∈ r.2.nodes, Retouched m n := by
  rcases all_of_mem_repeatable hw hn with whole | rfl | ⟨r, hr, item | rfl | inside⟩
  · exact .inl whole
  · cases noControl
  · exact .inr ⟨r, hr, .inl item⟩
  · cases noControl
  · exact .inr ⟨r, hr, .inr inside⟩

/-- A repeated field inside another one is inside an element. -/
theorem exists_of_mem_repeatable (hw : w.path = p)
    (hn : n ∈ (c.repeatable h w live (rows.map (c.heldItem p title))).nodes)
    (kind : n.widget.kind = .repeatable) :
    n = c.repeatable h w live (rows.map (c.heldItem p title)) ∨
      ∃ r ∈ rows, ∃ m ∈ r.2.nodes, Retouched m n := by
  rcases cases_of_mem_repeatable hw hn (by rw [kind]; rfl) with whole | ⟨r, hr, rfl | inside⟩
  · exact .inl whole
  · obtain ⟨element, -, wrapped, -⟩ := wrapItem_eq c p title r.1 r.2
    exact absurd (wrapped.kind.symm.trans kind) nofun
  · exact .inr ⟨r, hr, inside⟩

end Repeated

end Compile
end FormTree
