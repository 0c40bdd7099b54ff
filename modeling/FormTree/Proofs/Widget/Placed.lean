import FormTree.Widget
import Mathlib.Data.List.Nodup

/-!
Trees in which every widget stands one segment below the widget that holds it,
under a segment of its own. In such a tree no two nodes share a path, and each
node is found at its path.
-/

namespace FormTree

theorem Path.below?_eq_some_iff {p root rest : Path} :
    p.below? root = some rest ↔ root ++ rest = p := by
  rw [below?, List.isPrefixOf?_eq_some_iff_append_eq]

theorem Path.below?_append (root rel : Path) : (root ++ rel).below? root = some rel :=
  below?_eq_some_iff.2 rfl

theorem Path.withoutSynthetic_append (p q : Path) :
    (p ++ q).withoutSynthetic = p.withoutSynthetic ++ q.withoutSynthetic :=
  List.filter_append p q

theorem Path.relativeTo_append (root rel : Path) :
    relativeTo root (root ++ rel) = rel.withoutSynthetic := by
  rw [relativeTo, below?_append, Option.getD_some]

namespace WidgetTree

theorem nodesOf_eq (trees : List WidgetTree) : nodesOf trees = trees.flatMap nodes := by
  induction trees with
  | nil => rfl
  | cons t rest ih => rw [nodesOf, ih, List.flatMap_cons]

theorem nodes_node (w : Widget) (children : List WidgetTree) :
    (node w children).nodes = node w children :: children.flatMap nodes := by
  rw [nodes, nodesOf_eq]

theorem mem_nodes_self (t : WidgetTree) : t ∈ t.nodes := by
  cases t
  exact List.mem_cons_self

theorem nodes_eq (t : WidgetTree) : t.nodes = t :: t.children.flatMap nodes := by
  cases t
  exact nodes_node _ _

theorem mem_nodes_iff {t n : WidgetTree} :
    n ∈ t.nodes ↔ n = t ∨ ∃ child ∈ t.children, n ∈ child.nodes := by
  rw [nodes_eq, List.mem_cons, List.mem_flatMap]

inductive Placed : Path → WidgetTree → Prop
  | node {p : Path} {w : Widget} {rows : List (Segment × WidgetTree)} (path : w.path = p)
      (nodup : (rows.map Prod.fst).Nodup) (below : ∀ r ∈ rows, Placed (p ++ [r.1]) r.2) :
      Placed p (.node w (rows.map Prod.snd))

namespace Placed

variable {p : Path} {t n : WidgetTree}

theorem leaf {w : Widget} (path : w.path = p) : Placed p (.node w []) :=
  @Placed.node p w [] path List.nodup_nil nofun

theorem path (h : Placed p t) : t.path = p := by
  cases h with
  | node path _ _ => exact path

theorem mem_nodes_of_child (h : Placed p t) {child : WidgetTree} (hn : n ∈ t.nodes)
    (hc : child ∈ n.children) : child ∈ t.nodes := by
  induction h with
  | node _ _ _ ih =>
      rcases mem_nodes_iff.1 hn with rfl | ⟨c, hc', hn⟩
      · exact mem_nodes_iff.2 (.inr ⟨child, hc, mem_nodes_self child⟩)
      · obtain ⟨r, hr, rfl⟩ := List.mem_map.1 hc'
        exact mem_nodes_iff.2 (.inr ⟨r.2, hc', ih r hr hn⟩)

/-- A node is placed where it stands. -/
theorem of_mem (h : Placed p t) (hn : n ∈ t.nodes) : Placed n.path n := by
  induction h with
  | @node p w rows path nodup below ih =>
      rcases mem_nodes_iff.1 hn with rfl | ⟨child, held, hn⟩
      · subst path
        exact .node rfl nodup below
      · obtain ⟨r, hr, rfl⟩ := List.mem_map.1 held
        exact ih r hr hn

/-- The segments under which the children stand, each once. -/
theorem exists_segments (h : Placed p t) : ∃ segments : List Segment,
    t.children.map WidgetTree.path = segments.map (p ++ [·]) ∧ segments.Nodup := by
  cases h with
  | @node _ w rows path nodup below =>
      refine ⟨rows.map Prod.fst, ?_, nodup⟩
      rw [children, List.map_map, List.map_map]
      exact List.map_congr_left fun r hr => (below r hr).path

/-- Every node below stands below the path of the tree. -/
theorem isPrefix (h : Placed p t) (hn : n ∈ t.nodes) : p <+: n.path := by
  induction h with
  | @node p w rows path _ _ ih =>
      rw [nodes_node, List.mem_cons] at hn
      rcases hn with rfl | hn
      · exact path ▸ List.prefix_rfl
      · obtain ⟨child, hc, hn⟩ := List.mem_flatMap.1 hn
        obtain ⟨r, hr, rfl⟩ := List.mem_map.1 hc
        exact (List.prefix_append p [r.1]).trans (ih r hr hn)

theorem nodup (h : Placed p t) : (t.nodes.map WidgetTree.path).Nodup := by
  induction h with
  | @node p w rows path nodup below ih =>
      rw [nodes_node, List.map_cons, List.nodup_cons, List.flatMap_map, List.map_flatMap]
      refine ⟨?_, List.nodup_flatMap.2 ⟨ih, ?_⟩⟩
      · intro hp
        obtain ⟨r, hr, hp⟩ := List.mem_flatMap.1 hp
        obtain ⟨n, hn, hp⟩ := List.mem_map.1 hp
        have long := ((below r hr).isPrefix hn).length_le
        rw [hp] at long
        simp only [WidgetTree.path, widget, path, List.length_append, List.length_singleton] at long
        omega
      · rw [List.Nodup, List.pairwise_map] at nodup
        refine nodup.imp_of_mem ?_
        intro r r' hr hr' hne
        refine List.disjoint_left.2 ?_
        intro q hq hq'
        obtain ⟨n, hn, rfl⟩ := List.mem_map.1 hq
        obtain ⟨n', hn', hq'⟩ := List.mem_map.1 hq'
        have first := (below r hr).isPrefix hn
        have second := (below r' hr').isPrefix hn'
        rw [hq'] at second
        have same := List.prefix_of_prefix_length_le first second (by simp)
        exact hne (by simpa using same.eq_of_length (by simp))

private theorem child?_eq {w : Widget} {rows : List (Segment × WidgetTree)}
    (nodup : (rows.map Prod.fst).Nodup) (below : ∀ r ∈ rows, Placed (p ++ [r.1]) r.2)
    {r : Segment × WidgetTree} (hr : r ∈ rows) :
    (WidgetTree.node w (rows.map Prod.snd)).child? r.1 = some r.2 := by
  have last {r : Segment × WidgetTree} (hr : r ∈ rows) : r.2.path.getLast? = some r.1 := by
    rw [(below r hr).path, List.getLast?_concat]
  obtain ⟨before, after, rfl⟩ := List.append_of_mem hr
  rw [child?, children, List.find?_eq_some_iff_append]
  refine ⟨by simp [endsIn, last hr], before.map Prod.snd, after.map Prod.snd, by simp, ?_⟩
  intro t ht
  obtain ⟨r', hr', rfl⟩ := List.mem_map.1 ht
  rw [List.map_append, List.nodup_append] at nodup
  have hne : r'.1 ≠ r.1 := nodup.2.2 r'.1 (List.mem_map_of_mem hr') r.1 (by simp)
  simpa [endsIn, last (List.mem_append_left _ hr')] using hne

private theorem descend?_eq (h : Placed p t) (hn : n ∈ t.nodes) :
    ∃ rest, n.path = p ++ rest ∧ descend? rest t = some n := by
  induction h with
  | @node p w rows path nodup below ih =>
      rw [nodes_node, List.mem_cons] at hn
      rcases hn with rfl | hn
      · exact ⟨[], by rw [List.append_nil]; exact path, rfl⟩
      · obtain ⟨child, hc, hn⟩ := List.mem_flatMap.1 hn
        obtain ⟨r, hr, rfl⟩ := List.mem_map.1 hc
        obtain ⟨rest, hpath, hrest⟩ := ih r hr hn
        refine ⟨r.1 :: rest, by rw [hpath, List.append_assoc]; rfl, ?_⟩
        rw [descend?, child?_eq nodup below hr, Option.bind_some, hrest]

theorem find? (h : Placed p t) (hn : n ∈ t.nodes) : t.find? n.path = some n := by
  obtain ⟨rest, hpath, hrest⟩ := descend?_eq h hn
  have below : n.path.below? t.path = some rest := by
    rw [hpath, h.path, Path.below?_append]
  rw [WidgetTree.find?, below, Option.bind_some, hrest]

private theorem of_descend? {rest : Path} (h : Placed p t) (hd : descend? rest t = some n) :
    n ∈ t.nodes ∧ n.path = p ++ rest := by
  induction rest generalizing p t with
  | nil =>
      cases hd
      exact ⟨mem_nodes_self n, by rw [h.path, List.append_nil]⟩
  | cons s rest ih =>
      obtain ⟨child, hchild, hrest⟩ := Option.bind_eq_some_iff.1 hd
      have held := List.mem_of_find?_eq_some hchild
      have last : child.path.getLast? = some s := by simpa [endsIn] using List.find?_some hchild
      cases h with
      | node path _ below =>
          obtain ⟨r, hr, rfl⟩ := List.mem_map.1 held
          rw [(below r hr).path, List.getLast?_concat] at last
          obtain rfl := Option.some.inj last
          obtain ⟨inside, hpath⟩ := ih (below r hr) hrest
          exact ⟨mem_nodes_iff.2 (.inr ⟨r.2, held, inside⟩), by simpa using hpath⟩

/-- What is found at a path is the node of the tree with this path. -/
theorem find?_eq_some_iff (h : Placed p t) {q : Path} :
    t.find? q = some n ↔ n ∈ t.nodes ∧ n.path = q := by
  constructor
  · intro found
    obtain ⟨rest, below, hd⟩ := Option.bind_eq_some_iff.1 found
    rw [h.path, Path.below?, List.isPrefixOf?_eq_some_iff_append_eq] at below
    exact below ▸ h.of_descend? hd
  · rintro ⟨inside, rfl⟩
    exact h.find? inside

/-- Nothing is found at a path that no node has. -/
theorem find?_eq_none (h : Placed p t) {q : Path} (absent : ∀ n ∈ t.nodes, n.path ≠ q) :
    t.find? q = none :=
  Option.eq_none_iff_forall_not_mem.2 fun n found =>
    absent n (h.find?_eq_some_iff.1 found).1 (h.find?_eq_some_iff.1 found).2

/-- A path belongs to one node. -/
theorem eq_of_path (h : Placed p t) {n' : WidgetTree} (hn : n ∈ t.nodes) (hn' : n' ∈ t.nodes)
    (same : n.path = n'.path) : n = n' := by
  have first := h.find? hn
  rw [same, h.find? hn'] at first
  exact (Option.some.inj first).symm

end Placed
end WidgetTree
end FormTree
