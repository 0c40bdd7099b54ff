import FormTree.Proofs.PointerMap.Mapped

/-!
Trees of one form at two places, and their pointer maps. The pointers of the form
are the same, and each leads to the same widget.
-/

namespace FormTree

def Widget.mounted (root : Path) (w : Widget) : Widget := { w with path := root ++ w.path }

namespace WidgetTree

def mounted (root : Path) (t : WidgetTree) : WidgetTree := t.mapWidgets (Widget.mounted root)

/-- The tree under another name and title. -/
def entitled (name title : String) : WidgetTree → WidgetTree
  | .node w children => .node { w with name, title } children

theorem mounted_node (root : Path) (w : Widget) (children : List WidgetTree) :
    (node w children).mounted root = .node (w.mounted root) (children.map (mounted root)) :=
  mapWidgets_node _ w children

theorem propPaths_mounted (root : Path) (t : WidgetTree) :
    ((t.mounted root).nodes.map fun n => n.widget.propPath) =
      t.nodes.map fun n => n.widget.propPath := by
  rw [mounted, nodes_mapWidgets, List.map_map]
  refine List.map_congr_left fun n _ => ?_
  rw [Function.comp_apply, widget_mapWidgets, Widget.mounted]

theorem propPaths_entitled (t : WidgetTree) (name title : String) :
    ((t.entitled name title).nodes.map fun n => n.widget.propPath) =
      t.nodes.map fun n => n.widget.propPath := by
  cases t
  rw [entitled, nodes_node, nodes_node]
  rfl

/-- No widget below the root of the tree is at the place where forms begin. -/
def Inner (t : WidgetTree) : Prop := ∀ n ∈ t.nodes, ∀ child ∈ n.children, child.path ≠ []

theorem Inner.of_children {t : WidgetTree}
    (below : ∀ child ∈ t.children, child.path ≠ [] ∧ child.Inner) : t.Inner := by
  intro n hn child held
  rcases mem_nodes_iff.1 hn with rfl | ⟨m, hm, hn⟩
  · exact (below child held).1
  · exact (below m hm).2 n hn child held

theorem Inner.child {t child : WidgetTree} (inner : t.Inner) (held : child ∈ t.children) :
    child.Inner :=
  fun n hn => inner n (mem_nodes_iff.2 (.inr ⟨child, held, hn⟩))

end WidgetTree

namespace PointerMap

variable {root : Path} {tokens : List String} {t : WidgetTree}

/-- The same entry, for a form at another place. -/
def atRoot (root : Path) (e : String × Path) : String × Path := (e.1, root ++ e.2)

private theorem getLast?_mounted {p : Path} (inner : p ≠ []) :
    (root ++ p).getLast? = p.getLast? := by
  rw [List.getLast?_append, List.getLast?_eq_some_getLast inner, Option.some_or]

theorem pairs_mounted (inner : t.Inner) (tokens : List String) :
    pairs tokens (t.mounted root) = (pairs tokens t).map (atRoot root) :=
  pairs_mapWidgets (f := Widget.mounted root) (g := (root ++ ·)) (fun _ => rfl) (fun _ => rfl)
    (fun n hn child held => getLast?_mounted (inner n hn child held)) tokens

/-- The name and the title of the root have no part in the pointers. -/
theorem pairs_entitled (tokens : List String) (t : WidgetTree) (name title : String) :
    pairs tokens (t.entitled name title) = pairs tokens t := by
  cases t
  rfl

/-- The maps of a form at two places. -/
structure Mounted (root : Path) (m' m : PointerMap) : Prop where
  byPointer : m'.entries = m.entries.map (atRoot root)
  byPath : ∀ p, m'.pointer? p = (p.below? root).bind m.pointer?

namespace Mounted

variable {m m' : PointerMap}

theorem empty (root : Path) : Mounted root empty empty := by
  refine ⟨rfl, fun p => ?_⟩
  cases p.below? root <;> rfl

private theorem insertIn_map (root : Path) (pointer : String) (p : Path)
    (entries : List (String × Path)) :
    SortedMap.insertIn pointer (root ++ p) (entries.map (atRoot root)) =
      (SortedMap.insertIn pointer p entries).map (atRoot root) := by
  induction entries with
  | nil => rfl
  | cons e entries ih =>
      obtain ⟨q, r⟩ := e
      rw [List.map_cons, atRoot, SortedMap.insertIn, SortedMap.insertIn]
      dsimp only
      cases compare pointer q with
      | lt | eq => rfl
      | gt => exact congrArg (List.cons _) ih

private theorem findIn?_map (root : Path) (pointer : String) (entries : List (String × Path)) :
    SortedMap.findIn? pointer (entries.map (atRoot root)) =
      (SortedMap.findIn? pointer entries).map (root ++ ·) := by
  induction entries with
  | nil => rfl
  | cons e entries ih =>
      obtain ⟨q, r⟩ := e
      rw [List.map_cons, atRoot, SortedMap.findIn?, SortedMap.findIn?]
      split
      · rfl
      · exact ih

theorem find? (mounted : Mounted root m' m) (pointer : String) :
    m'.byPointer.find? pointer = (m.byPointer.find? pointer).map (root ++ ·) := by
  have entries : m'.byPointer.entries = m.byPointer.entries.map (atRoot root) := mounted.byPointer
  rw [SortedMap.find?, entries, findIn?_map]
  rfl

theorem record (mounted : Mounted root m' m) (pointer : String) (p : Path) :
    Mounted root (m'.record pointer (root ++ p)) (m.record pointer p) := by
  constructor
  · have entries : m'.byPointer.entries = m.byPointer.entries.map (atRoot root) :=
      mounted.byPointer
    change SortedMap.insertIn pointer (root ++ p) m'.byPointer.entries = _
    rw [entries, insertIn_map]
    rfl
  · intro q
    rw [pointer?, find?_byPath_record, mounted.find?]
    cases hq : q.below? root with
    | none =>
        have outside (r : Path) : q ≠ root ++ r := by
          rintro rfl
          rw [Path.below?_append] at hq
          cases hq
        have apart : (m.byPointer.find? pointer).map (root ++ ·) ≠ some q := by
          intro previous
          obtain ⟨r, -, hr⟩ := Option.map_eq_some_iff.1 previous
          exact outside r hr.symm
        rw [if_neg (outside p), if_neg apart]
        have absent := mounted.byPath q
        rwa [hq] at absent
    | some r =>
        obtain rfl := Path.below?_eq_some_iff.1 hq
        have kept := mounted.byPath (root ++ r)
        rw [hq, Option.bind_some] at kept
        have previous : (m.byPointer.find? pointer).map (root ++ ·) = some (root ++ r) ↔
            m.byPointer.find? pointer = some r := by
          rw [← Option.map_some]
          exact (Option.map_injective (List.append_right_injective root)).eq_iff
        simp only [Option.bind_some, pointer?, find?_byPath_record, List.append_cancel_left_eq,
          previous]
        split
        · rfl
        · split
          · rfl
          · exact kept

theorem foldl (mounted : Mounted root m' m) (entries : List (String × Path)) :
    Mounted root ((entries.map (atRoot root)).foldl (fun m e => m.record e.1 e.2) m')
      (entries.foldl (fun m e => m.record e.1 e.2) m) := by
  induction entries generalizing m m' with
  | nil => exact mounted
  | cons e entries ih => exact ih (mounted.record e.1 e.2)

end Mounted

/-- The map of a form is the map of the form at another place, with the paths that lead there. -/
theorem mounted_ofTree (inner : t.Inner) (root : Path) (name title : String) :
    Mounted root (ofTree ((t.mounted root).entitled name title) root) (ofTree t []) := by
  have path : ((t.mounted root).entitled name title).path = root ++ t.path := by
    cases t
    rfl
  have here : t.path.below? [] = some t.path := Path.below?_append [] t.path
  rw [ofTree, ofTree, path, Path.below?_append, here, pairs_entitled, pairs_mounted inner]
  exact (Mounted.empty root).foldl _

end PointerMap
end FormTree
