import FormTree.Widget

/-!
Trees without their values. What is left when the values go is the structure of a
form, which does not depend on what was entered in it.
-/

namespace FormTree

def Widget.withoutValue (w : Widget) : Widget := { w with defaultValue := none }

namespace WidgetTree

mutual

def withoutValues : WidgetTree → WidgetTree
  | .node w children => .node w.withoutValue (withoutValuesAll children)

def withoutValuesAll : List WidgetTree → List WidgetTree
  | [] => []
  | t :: rest => withoutValues t :: withoutValuesAll rest

end

theorem withoutValues_node (w : Widget) (children : List WidgetTree) :
    (node w children).withoutValues = .node w.withoutValue (children.map withoutValues) := by
  have all : ∀ trees, withoutValuesAll trees = trees.map withoutValues := by
    intro trees
    induction trees with
    | nil => rfl
    | cons t rest ih => rw [withoutValuesAll, ih, List.map_cons]
  rw [withoutValues, all]

end WidgetTree
end FormTree
