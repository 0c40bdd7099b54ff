import FormTree.Proofs.Widget.Placed

/-!
One change made to every widget of a tree. The tree keeps its form, so what such a
change does is known from what it does to each widget alone. An update at a path is
one that leaves every widget elsewhere as it is.
-/

namespace FormTree
namespace WidgetTree

mutual

@[elab_as_elim]
theorem induct {motive : WidgetTree → Prop}
    (node : ∀ w children, (∀ t ∈ children, motive t) → motive (.node w children)) :
    (t : WidgetTree) → motive t
  | .node w children => node w children (inductAll node children)

private theorem inductAll {motive : WidgetTree → Prop}
    (node : ∀ w children, (∀ t ∈ children, motive t) → motive (.node w children)) :
    (trees : List WidgetTree) → ∀ t ∈ trees, motive t
  | [] => nofun
  | t :: rest => List.forall_mem_cons.2 ⟨induct node t, inductAll node rest⟩

end

mutual

def mapWidgets (f : Widget → Widget) : WidgetTree → WidgetTree
  | .node w children => .node (f w) (mapWidgetsAll f children)

def mapWidgetsAll (f : Widget → Widget) : List WidgetTree → List WidgetTree
  | [] => []
  | t :: rest => mapWidgets f t :: mapWidgetsAll f rest

end

variable {f g : Widget → Widget} {p q : Path} {t : WidgetTree}

@[simp]
theorem mapWidgets_node (f : Widget → Widget) (w : Widget) (children : List WidgetTree) :
    (node w children).mapWidgets f = .node (f w) (children.map (mapWidgets f)) := by
  have all : ∀ trees, mapWidgetsAll f trees = trees.map (mapWidgets f) := by
    intro trees
    induction trees with
    | nil => rfl
    | cons t rest ih => rw [mapWidgetsAll, ih, List.map_cons]
  rw [mapWidgets, all]

@[simp]
theorem widget_mapWidgets (f : Widget → Widget) (t : WidgetTree) :
    (t.mapWidgets f).widget = f t.widget := by
  cases t
  rfl

theorem nodes_mapWidgets (f : Widget → Widget) (t : WidgetTree) :
    (t.mapWidgets f).nodes = t.nodes.map (mapWidgets f) := by
  induction t using induct with
  | node w children ih =>
      rw [mapWidgets_node, nodes_node, nodes_node, List.map_cons, mapWidgets_node,
        List.flatMap_map, List.map_flatMap, List.flatMap_congr ih]

theorem mapWidgets_congr (same : ∀ n ∈ t.nodes, f n.widget = g n.widget) :
    t.mapWidgets f = t.mapWidgets g := by
  induction t using induct with
  | node w children ih =>
      have here : f w = g w := same _ (mem_nodes_self _)
      rw [mapWidgets_node, mapWidgets_node, here]
      congr 1
      refine List.map_congr_left fun child held => ih child held fun n hn => same n ?_
      exact mem_nodes_iff.2 (.inr ⟨child, held, hn⟩)

theorem mapWidgets_mapWidgets (f g : Widget → Widget) (t : WidgetTree) :
    (t.mapWidgets f).mapWidgets g = t.mapWidgets fun w => g (f w) := by
  induction t using induct with
  | node w children ih =>
      simp only [mapWidgets_node, List.map_map]
      congr 1
      exact List.map_congr_left ih

@[simp]
theorem mapWidgets_id (t : WidgetTree) : (t.mapWidgets fun w => w) = t := by
  induction t using induct with
  | node w children ih => rw [mapWidgets_node, List.map_congr_left ih, List.map_id']

/-- A change that leaves every widget of a tree as it is leaves the tree as it is. -/
theorem mapWidgets_eq_self (same : ∀ n ∈ t.nodes, f n.widget = n.widget) : t.mapWidgets f = t :=
  (mapWidgets_congr same).trans t.mapWidgets_id

theorem mapWidgets_eq_self_iff :
    t.mapWidgets f = t ↔ ∀ n ∈ t.nodes, f n.widget = n.widget := by
  refine ⟨fun same n hn => ?_, mapWidgets_eq_self⟩
  have each := nodes_mapWidgets f t
  rw [same, ← List.map_id t.nodes, List.map_map] at each
  have here := List.map_inj_left.1 each n hn
  rw [← widget_mapWidgets f n]
  exact congrArg WidgetTree.widget here.symm

theorem Placed.mapWidgets (h : Placed p t) (keeps : ∀ w, (f w).path = w.path) :
    Placed p (t.mapWidgets f) := by
  induction h with
  | @node p w rows path nodup _ ih =>
      have same : (rows.map Prod.snd).map (WidgetTree.mapWidgets f) =
          (rows.map fun r => (r.1, r.2.mapWidgets f)).map Prod.snd := by simp
      rw [mapWidgets_node, same]
      refine .node ((keeps w).trans path) (by simpa [Function.comp_def] using nodup) ?_
      intro r hr
      obtain ⟨m, hm, rfl⟩ := List.mem_map.1 hr
      exact ih m hm

section Update

/-- The first of some values is changed where no other one meets the condition. -/
private theorem mapFirst_eq_map {α : Type} {cond : α → Bool} {f g : α → α} {as : List α}
    (changed : ∀ a ∈ as, cond a = true → f a = g a) (kept : ∀ a ∈ as, cond a = false → g a = a)
    (single : as.Pairwise fun a b => ¬(cond a = true ∧ cond b = true)) :
    mapFirst cond f as = as.map g := by
  induction as with
  | nil => rfl
  | cons a as ih =>
      rw [List.pairwise_cons] at single
      rw [List.forall_mem_cons] at changed kept
      rw [mapFirst, List.map_cons]
      split
      · next here =>
        have others : as.map g = as := by
          refine (List.map_congr_left fun b hb => kept.2 b hb ?_).trans as.map_id
          simpa [here] using single.1 b hb
        rw [changed.1 here, others]
      · next here =>
        rw [ih changed.2 kept.2 single.2, kept.1 (by simpa using here)]

/-- No widget elsewhere is at a path. -/
private theorem Placed.mapWidgets_of_not_isPrefix (h : Placed p t) (apart : ¬p <+: q) :
    (t.mapWidgets fun w => if w.path = q then f w else w) = t := by
  refine mapWidgets_eq_self fun n hn => if_neg ?_
  rintro rfl
  exact apart (h.isPrefix hn)

private theorem Placed.updateBelow_eq {rest : Path} (h : Placed p t) :
    updateBelow f rest t = t.mapWidgets fun w => if w.path = p ++ rest then f w else w := by
  induction h generalizing rest with
  | @node p w rows path nodup below ih =>
      rw [mapWidgets_node, path]
      cases rest with
      | nil =>
          rw [updateBelow, List.append_nil, if_pos rfl]
          congr 1
          rw [List.map_map]
          refine List.map_congr_left fun r hr => ((below r hr).mapWidgets_of_not_isPrefix ?_).symm
          intro before
          have short := before.length_le
          rw [List.length_append, List.length_singleton] at short
          omega
      | cons s rest =>
          rw [updateBelow, if_neg (by simp)]
          congr 1
          have last {r : Segment × WidgetTree} (hr : r ∈ rows) :
              endsIn s r.2 = true ↔ r.1 = s := by
            simp [endsIn, (below r hr).path]
          refine mapFirst_eq_map ?_ ?_ ?_
          · intro child held here
            obtain ⟨r, hr, rfl⟩ := List.mem_map.1 held
            obtain rfl := (last hr).1 here
            rw [ih r hr, List.append_assoc]
            rfl
          · intro child held elsewhere
            obtain ⟨r, hr, rfl⟩ := List.mem_map.1 held
            refine (below r hr).mapWidgets_of_not_isPrefix ?_
            intro before
            have other : r.1 ≠ s := fun same => by simp [(last hr).2 same] at elsewhere
            rw [List.prefix_append_right_inj] at before
            simp [other] at before
          · rw [List.Nodup, List.pairwise_map] at nodup
            rw [List.pairwise_map]
            refine nodup.imp_of_mem fun hr hr' different both => different ?_
            exact ((last hr).1 both.1).trans ((last hr').1 both.2).symm

/-- An update at a path is made at the widget with this path, and nowhere else. -/
theorem Placed.update_eq (h : Placed p t) (f : Widget → Widget) (q : Path) :
    t.update f q = t.mapWidgets fun w => if w.path = q then f w else w := by
  rw [update]
  split
  · next rest below =>
    rw [h.path, Path.below?, List.isPrefixOf?_eq_some_iff_append_eq] at below
    rw [h.updateBelow_eq, below]
  · next outside =>
    refine (h.mapWidgets_of_not_isPrefix ?_).symm
    rintro ⟨rest, rfl⟩
    rw [h.path, Path.below?_append] at outside
    cases outside

end Update

end WidgetTree
end FormTree
