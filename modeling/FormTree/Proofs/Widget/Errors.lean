import FormTree.Proofs.Widget.Placed
import FormTree.Route

/-!
Messages leave the form as it is. A tree that messages were merged into differs
from the one before in nothing but the messages of its widgets.
-/

namespace FormTree

/-- The widget as it was built, before messages. -/
def Widget.withoutErrors (w : Widget) : Widget := { w with errors := [] }

theorem Widget.eq_of_withoutErrors {w w' : Widget} (h : w.withoutErrors = w'.withoutErrors) :
    w = { w' with errors := w.errors } := by
  cases w
  cases w'
  cases h
  rfl

namespace WidgetTree

mutual

def withoutErrors : WidgetTree → WidgetTree
  | .node w children => .node w.withoutErrors (withoutErrorsAll children)

def withoutErrorsAll : List WidgetTree → List WidgetTree
  | [] => []
  | t :: rest => withoutErrors t :: withoutErrorsAll rest

end

theorem withoutErrorsAll_eq (trees : List WidgetTree) :
    withoutErrorsAll trees = trees.map withoutErrors := by
  induction trees with
  | nil => rfl
  | cons t rest ih => rw [withoutErrorsAll, ih, List.map_cons]

theorem withoutErrors_node (w : Widget) (children : List WidgetTree) :
    withoutErrors (.node w children) = .node w.withoutErrors (children.map withoutErrors) := by
  rw [withoutErrors, withoutErrorsAll_eq]

theorem widget_withoutErrors (t : WidgetTree) :
    t.withoutErrors.widget = t.widget.withoutErrors := by
  cases t
  rfl

mutual

theorem nodes_withoutErrors : (t : WidgetTree) → t.withoutErrors.nodes = t.nodes.map withoutErrors
  | .node _ children => congrArg (List.cons _) (nodesOf_withoutErrors children)

theorem nodesOf_withoutErrors :
    (trees : List WidgetTree) → nodesOf (withoutErrorsAll trees) = (nodesOf trees).map withoutErrors
  | [] => rfl
  | t :: rest => by
      rw [withoutErrorsAll, nodesOf, nodesOf, List.map_append, nodes_withoutErrors,
        nodesOf_withoutErrors]

end

private theorem map_mapFirst {α β : Type} {g : α → β} {f : α → α} (h : ∀ a, g (f a) = g a)
    (cond : α → Bool) (as : List α) : (mapFirst cond f as).map g = as.map g := by
  induction as with
  | nil => rfl
  | cons a as ih =>
      rw [mapFirst]
      split
      · rw [List.map_cons, List.map_cons, h]
      · rw [List.map_cons, List.map_cons, ih]

section Update

variable {f : Widget → Widget}

private theorem withoutErrors_updateBelow (h : ∀ w, (f w).withoutErrors = w.withoutErrors)
    (rel : Path) (t : WidgetTree) : (updateBelow f rel t).withoutErrors = t.withoutErrors := by
  induction rel generalizing t with
  | nil =>
      obtain ⟨w, children⟩ := t
      rw [updateBelow, withoutErrors_node, withoutErrors_node, h]
  | cons segment rel ih =>
      obtain ⟨w, children⟩ := t
      rw [updateBelow, withoutErrors_node, withoutErrors_node, map_mapFirst ih]

theorem withoutErrors_update (h : ∀ w, (f w).withoutErrors = w.withoutErrors) (p : Path)
    (t : WidgetTree) : (t.update f p).withoutErrors = t.withoutErrors := by
  rw [update]
  split
  · exact withoutErrors_updateBelow h _ t
  · rfl

end Update

theorem withoutErrors_addError (p : Path) (message : String) (t : WidgetTree) :
    (t.addError p message).withoutErrors = t.withoutErrors := by
  rw [addError]
  apply withoutErrors_update
  intro w
  rfl

theorem withoutErrors_withError (message : String) (t : WidgetTree) :
    (t.withError message).withoutErrors = t.withoutErrors := by
  cases t
  rfl

end WidgetTree

namespace Routed

theorem withoutErrors_mergeInto (r : Routed) (t : WidgetTree) :
    (r.mergeInto t).withoutErrors = t.withoutErrors := by
  have attached : (r.attachments.foldl (fun t a => t.addError a.path a.message) t).withoutErrors =
      t.withoutErrors := by
    generalize r.attachments = attachments
    induction attachments generalizing t with
    | nil => rfl
    | cons a attachments ih => rw [List.foldl_cons, ih, WidgetTree.withoutErrors_addError]
  rw [mergeInto]
  split
  · rw [WidgetTree.withoutErrors_withError, attached]
  · exact attached

/-- Merging messages keeps all widgets but for their messages. -/
theorem nodes_mergeInto (r : Routed) (t : WidgetTree) :
    (r.mergeInto t).nodes.map (fun n => n.widget.withoutErrors) =
      t.nodes.map fun n => n.widget.withoutErrors := by
  have same := congrArg (List.map WidgetTree.widget)
    (congrArg WidgetTree.nodes (withoutErrors_mergeInto r t))
  rw [WidgetTree.nodes_withoutErrors, WidgetTree.nodes_withoutErrors, List.map_map,
    List.map_map] at same
  simpa only [Function.comp_def, WidgetTree.widget_withoutErrors] using same

theorem exists_of_mem_mergeInto {r : Routed} {t n : WidgetTree} (h : n ∈ (r.mergeInto t).nodes) :
    ∃ m ∈ t.nodes, ∃ errors, n.widget = { m.widget with errors } := by
  have inside : n.widget.withoutErrors ∈ t.nodes.map fun n => n.widget.withoutErrors :=
    nodes_mergeInto r t ▸ List.mem_map_of_mem h
  obtain ⟨m, hm, same⟩ := List.mem_map.1 inside
  exact ⟨m, hm, _, Widget.eq_of_withoutErrors same.symm⟩

theorem exists_mem_mergeInto (r : Routed) {t m : WidgetTree} (h : m ∈ t.nodes) :
    ∃ n ∈ (r.mergeInto t).nodes, ∃ errors, n.widget = { m.widget with errors } := by
  have inside : m.widget.withoutErrors ∈
      (r.mergeInto t).nodes.map fun n => n.widget.withoutErrors :=
    nodes_mergeInto r t ▸ List.mem_map_of_mem h
  obtain ⟨n, hn, same⟩ := List.mem_map.1 inside
  exact ⟨n, hn, _, Widget.eq_of_withoutErrors same⟩

end Routed
end FormTree
