import FormTree.Proofs.Widget.Fields

/-!
Edits of a repeated field. The items of one field change, and the highest index
that the field shows; every other node of the tree stays as it is.
-/

namespace FormTree
namespace WidgetTree

mutual

/-- Changes what the repeated field at a path holds, and the highest index that it shows. -/
def withItems (p : Path) (f : List WidgetTree → List WidgetTree) (max? : Option Nat) :
    WidgetTree → WidgetTree
  | .node w children =>
    if w.kind = .repeatable ∧ w.path = p then
      .node { w with cardinality := some ⟨max?, true⟩ } (f children)
    else .node w (withItemsAll p f max? children)

def withItemsAll (p : Path) (f : List WidgetTree → List WidgetTree) (max? : Option Nat) :
    List WidgetTree → List WidgetTree
  | [] => []
  | t :: rest => withItems p f max? t :: withItemsAll p f max? rest

end

/-- Takes out the item under an index. -/
def dropItem (p : Path) (i : Nat) (children : List WidgetTree) : List WidgetTree :=
  children.filter fun t => t.path != p ++ [.index i]

/-- Puts an item before the control that adds one. -/
def insertItem (item : WidgetTree) (children : List WidgetTree) : List WidgetTree :=
  let isItem (t : WidgetTree) : Bool := t.widget.kind != .addControl
  children.takeWhile isItem ++ item :: children.dropWhile isItem

theorem insertItem_append {item add : WidgetTree} {items : List WidgetTree}
    (notAdd : ∀ t ∈ items, t.widget.kind ≠ .addControl) (isAdd : add.widget.kind = .addControl) :
    insertItem item (items ++ [add]) = items ++ [item, add] := by
  have kept : ∀ t ∈ items, (t.widget.kind != .addControl) = true := by simpa using notAdd
  rw [insertItem, List.takeWhile_append_of_pos kept, List.dropWhile_append_of_pos kept]
  simp [isAdd]

variable {p : Path} {f : List WidgetTree → List WidgetTree} {max? : Option Nat}

theorem withItems_of_ne {w : Widget} (other : ¬(w.kind = .repeatable ∧ w.path = p))
    (children : List WidgetTree) :
    (node w children).withItems p f max? = .node w (children.map (withItems p f max?)) := by
  have all : ∀ trees, withItemsAll p f max? trees = trees.map (withItems p f max?) := by
    intro trees
    induction trees with
    | nil => rfl
    | cons t rest ih => rw [withItemsAll, ih, List.map_cons]
  rw [withItems, if_neg other, all]

mutual

/-- An edit of a field that is not in the tree changes nothing. -/
theorem withItems_eq_self : (t : WidgetTree) →
    (∀ n ∈ t.nodes, n.widget.kind = .repeatable → n.path ≠ p) → t.withItems p f max? = t
  | .node w children, outside => by
      have here := outside _ (mem_nodes_self _)
      rw [withItems, if_neg fun h => here h.1 h.2, withItemsAll_eq_self]
      intro n hn
      exact outside n (by rw [nodes]; exact List.mem_cons_of_mem _ hn)

private theorem withItemsAll_eq_self : (trees : List WidgetTree) →
    (∀ n ∈ nodesOf trees, n.widget.kind = .repeatable → n.path ≠ p) →
      withItemsAll p f max? trees = trees
  | [], _ => rfl
  | t :: rest, outside => by
      rw [withItemsAll, withItems_eq_self t, withItemsAll_eq_self rest]
      · exact fun n hn => outside n (List.mem_append_right _ hn)
      · exact fun n hn => outside n (List.mem_append_left _ hn)

end

/-- The field that is edited is still in the tree. -/
theorem Placed.mem_withItems {q : Path} {t n : WidgetTree} (h : Placed q t) (hn : n ∈ t.nodes)
    (kind : n.widget.kind = .repeatable) (f : List WidgetTree → List WidgetTree)
    (max? : Option Nat) :
    .node { n.widget with cardinality := some ⟨max?, true⟩ } (f n.children) ∈
      (t.withItems n.path f max?).nodes := by
  induction h with
  | @node q w rows path nodup below ih =>
      rw [nodes_node, List.mem_cons] at hn
      rcases hn with rfl | hn
      · rw [withItems, if_pos ⟨kind, rfl⟩]
        exact mem_nodes_self _
      · obtain ⟨child, hc, hn⟩ := List.mem_flatMap.1 hn
        obtain ⟨r, hr, rfl⟩ := List.mem_map.1 hc
        have long := ((below r hr).isPrefix hn).length_le
        have other : ¬(w.kind = .repeatable ∧ w.path = n.path) := by
          rintro ⟨-, same⟩
          rw [← same, path, List.length_append, List.length_singleton] at long
          omega
        rw [withItems_of_ne other]
        exact mem_nodes_iff.2 (.inr ⟨_, List.mem_map_of_mem hc, ih r hr hn⟩)

end WidgetTree
end FormTree
