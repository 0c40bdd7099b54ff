import FormTree.Proofs.Widget.Fields

/-!
What a widget does to the ones it holds: it sets titles, descriptions and whether
a value is required. Everything else of a tree stays as it was.
-/

namespace FormTree
namespace WidgetTree

def isRepeated (n : WidgetTree) : Bool := n.widget.kind == .repeatable

theorem isRepeated_iff {n : WidgetTree} : n.isRepeated = true ↔ n.widget.kind = .repeatable :=
  beq_iff_eq

structure Retouched (t t' : WidgetTree) : Prop where
  children : t'.children = t.children
  widget : ∃ title description required,
    t'.widget = { t.widget with title, description, required }

namespace Retouched

variable {t t' n : WidgetTree}

theorem refl (t : WidgetTree) : Retouched t t := ⟨rfl, _, _, _, rfl⟩

theorem name (h : Retouched t t') : t'.widget.name = t.widget.name := by
  obtain ⟨_, _, _, _, hw⟩ := h
  rw [hw]

theorem path (h : Retouched t t') : t'.path = t.path := by
  obtain ⟨_, _, _, _, hw⟩ := h
  rw [WidgetTree.path, hw]
  rfl

theorem propPath (h : Retouched t t') : t'.widget.propPath = t.widget.propPath := by
  obtain ⟨_, _, _, _, hw⟩ := h
  rw [hw]

theorem kind (h : Retouched t t') : t'.widget.kind = t.widget.kind := by
  obtain ⟨_, _, _, _, hw⟩ := h
  rw [hw]

theorem cardinality (h : Retouched t t') : t'.widget.cardinality = t.widget.cardinality := by
  obtain ⟨_, _, _, _, hw⟩ := h
  rw [hw]

theorem exists_node (h : Retouched t t') (hn : n ∈ t'.nodes) :
    ∃ m ∈ t.nodes, Retouched m n := by
  rcases mem_nodes_iff.1 hn with rfl | ⟨child, hc, hn⟩
  · exact ⟨t, mem_nodes_self t, h⟩
  · rw [h.children] at hc
    exact ⟨n, mem_nodes_iff.2 (.inr ⟨child, hc, hn⟩), refl n⟩

theorem exists_node' (h : Retouched t t') (hn : n ∈ t.nodes) :
    ∃ m ∈ t'.nodes, Retouched n m := by
  rcases mem_nodes_iff.1 hn with rfl | ⟨child, hc, hn⟩
  · exact ⟨t', mem_nodes_self t', h⟩
  · rw [← h.children] at hc
    exact ⟨n, mem_nodes_iff.2 (.inr ⟨child, hc, hn⟩), refl n⟩

theorem exists_at {rel : Path} {tokens : List String} (h : Retouched t t')
    (hat : At t rel tokens n) : ∃ m, At t' rel tokens m ∧ Retouched n m := by
  cases hat with
  | here => exact ⟨t', .here t', h⟩
  | property kind held path below =>
      rw [← h.kind] at kind
      rw [← h.children] at held
      rw [← h.path] at path
      exact ⟨n, .property kind held path below, refl n⟩
  | item kind held wrapped below =>
      rw [← h.kind] at kind
      rw [← h.children] at held
      rw [← h.path] at wrapped
      exact ⟨n, .item kind held wrapped below, refl n⟩

/-- The repeated fields of the tree are where they were. -/
theorem paths_repeated (h : Retouched t t') :
    (t'.nodes.filter isRepeated).map WidgetTree.path =
      (t.nodes.filter isRepeated).map WidgetTree.path := by
  have root : t'.isRepeated = t.isRepeated := by rw [isRepeated, h.kind, isRepeated]
  rw [nodes_eq t', nodes_eq t, h.children]
  simp only [List.filter_cons, root]
  split
  · rw [List.map_cons, List.map_cons, h.path]
  · rfl

end Retouched
end WidgetTree
end FormTree
