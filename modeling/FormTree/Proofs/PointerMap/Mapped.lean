import FormTree.Proofs.PointerMap.Fields
import FormTree.Proofs.Widget.Mapped

/-!
The pointers of a tree in which every widget is changed. A change that keeps the
kinds of widgets, and the segments under which they are held, keeps the pointers.
-/

namespace FormTree
namespace PointerMap

variable {f : Widget → Widget} {g : Path → Path}

private theorem pairsOf_mapWidgets (kind : ∀ w, (f w).kind = w.kind)
    (path : ∀ w, (f w).path = g w.path) {children : List WidgetTree}
    (below : ∀ child ∈ children, ∀ tokens,
      pairs tokens (child.mapWidgets f) = (pairs tokens child).map (Prod.map id g))
    (last : ∀ child ∈ children, (g child.path).getLast? = child.path.getLast?)
    (tokens : List String) (parent : Widget.Kind) (place : Nat) :
    pairsOf tokens parent place (children.map (.mapWidgets f)) =
      (pairsOf tokens parent place children).map (Prod.map id g) := by
  induction children generalizing place with
  | nil => rfl
  | cons child children ih =>
      rw [List.forall_mem_cons] at below last
      have same : (child.mapWidgets f).widget.kind = child.widget.kind := by
        rw [WidgetTree.widget_mapWidgets, kind]
      have segment : (g child.widget.path).getLast? = child.widget.path.getLast? := last.1
      rw [List.map_cons]
      cases hc : child.widget.kind.isControl with
      | true => rw [pairsOf_control (same ▸ hc), pairsOf_control hc, ih below.2 last.2]
      | false =>
          rw [pairsOf_cons (same ▸ hc), pairsOf_cons hc, WidgetTree.widget_mapWidgets, token?,
            countsAsItem, path, segment, below.1, ih below.2 last.2, List.map_append]
          rfl

theorem pairs_mapWidgets (kind : ∀ w, (f w).kind = w.kind) (path : ∀ w, (f w).path = g w.path)
    {t : WidgetTree} (last : ∀ n ∈ t.nodes, ∀ child ∈ n.children,
      (g child.path).getLast? = child.path.getLast?) (tokens : List String) :
    pairs tokens (t.mapWidgets f) = (pairs tokens t).map (Prod.map id g) := by
  induction t using WidgetTree.induct generalizing tokens with
  | node w children ih =>
      have below : ∀ child ∈ children, ∀ tokens,
          pairs tokens (child.mapWidgets f) = (pairs tokens child).map (Prod.map id g) := by
        intro child held
        refine ih child held fun n hn => last n ?_
        exact WidgetTree.mem_nodes_iff.2 (.inr ⟨child, held, hn⟩)
      have rest := pairsOf_mapWidgets kind path below (last _ (WidgetTree.mem_nodes_self _)) tokens
        w.kind 0
      rw [WidgetTree.mapWidgets_node, pairs, pairs, List.map_cons, kind, path, ← rest]
      rfl

end PointerMap
end FormTree
