import FormTree.Proofs.PointerMap.Mapped

/-!
Trees without their presentation. What is left is what a form is made of: its
widgets with their names, places, kinds and values, and the keys of their options.
The pointers of a form are made of nothing else.
-/

namespace FormTree

/-- The widget without titles and texts, without the labels of its options, and without the flags
that say whether it can be seen and used. -/
def Widget.withoutPresentation (w : Widget) : Widget :=
  { w with
    title := ""
    description := none
    placeholder := none
    enabled := true
    visible := true
    options := w.options.map fun o => (o.1, "") }

def WidgetTree.withoutPresentation (t : WidgetTree) : WidgetTree :=
  t.mapWidgets Widget.withoutPresentation

theorem WidgetTree.withoutPresentation_node (w : Widget) (children : List WidgetTree) :
    (node w children).withoutPresentation =
      .node w.withoutPresentation (children.map withoutPresentation) :=
  mapWidgets_node _ w children

theorem PointerMap.ofTree_withoutPresentation (t : WidgetTree) (root : Path) :
    ofTree t.withoutPresentation root = ofTree t root := by
  have path : t.withoutPresentation.path = t.path := by
    cases t
    rfl
  have kept (tokens : List String) : pairs tokens t.withoutPresentation = pairs tokens t := by
    have same := pairs_mapWidgets (f := Widget.withoutPresentation) (g := id) (fun _ => rfl)
      (fun _ => rfl) (t := t) (fun _ _ _ _ => rfl) tokens
    exact same.trans (List.map_id _)
  rw [ofTree, ofTree, path, kept]

end FormTree
