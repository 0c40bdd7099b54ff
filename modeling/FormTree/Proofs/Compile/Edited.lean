import FormTree.Proofs.Compile.Held
import FormTree.Proofs.Widget.Edit

/-!
Edits of trees as groups and repeated fields hold them. An edit of a field further
down is the same edit of each part, and an edit of the field itself drops or adds
a row.
-/

namespace FormTree

open WidgetTree (dropItem insertItem)

namespace Compile

variable {c : Context} {name : String} {p P : Path} {h : Hint} {s : Schema} {i : Nat}
  {f : List WidgetTree → List WidgetTree} {max? : Option Nat}

theorem withItems_heldProperty (required : List String)
    (r : (String × Schema) × WidgetTree) :
    (heldProperty required r).withItems P f max? =
      heldProperty required (r.1, r.2.withItems P f max?) := by
  obtain ⟨m, w, children⟩ := r
  simp only [heldProperty, withRequired, WidgetTree.withItems]
  split
  · split <;> rfl
  · split <;> rfl

theorem withItems_heldItem (title : String) (r : Nat × WidgetTree) :
    (c.heldItem p title r).withItems P f max? =
      c.heldItem p title (r.1, r.2.withItems P f max?) := by
  obtain ⟨i, w, children⟩ := r
  simp only [Context.heldItem, Context.wrapItem, Context.removeControl, WidgetTree.withItems,
    WidgetTree.withItemsAll, reduceCtorEq, false_and, ite_false]
  generalize c.options.itemTitle title i = itemTitle
  split <;> rfl

/-- The same edit in every row. -/
def editRow {α : Type} (P : Path) (f : List WidgetTree → List WidgetTree)
    (max? : Option Nat) (r : α × WidgetTree) : α × WidgetTree :=
  (r.1, r.2.withItems P f max?)

theorem fst_editRow {α : Type} (rows : List (α × WidgetTree)) :
    (rows.map (editRow P f max?)).map Prod.fst = rows.map Prod.fst := by
  rw [List.map_map]
  rfl

theorem withItems_group (required : List String)
    (rows : List ((String × Schema) × WidgetTree)) :
    (WidgetTree.node (c.groupWidget s name p h) (rows.map (heldProperty required))).withItems P f
        max? =
      .node (c.groupWidget s name p h)
        ((rows.map (editRow P f max?)).map (heldProperty required)) := by
  have other : (c.groupWidget s name p h).kind ≠ .repeatable := by
    simp [Context.groupWidget, flagged]
  rw [WidgetTree.withItems_of_ne fun same => other same.1, List.map_map, List.map_map]
  exact congrArg _ (List.map_congr_left fun r _ => withItems_heldProperty required r)

theorem withItems_repeatable {w : Widget} (other : w.path ≠ P) (live : LiveItems)
    (title : String) (rows : List (Nat × WidgetTree)) :
    (c.repeatable h w live (rows.map (c.heldItem p title))).withItems P f max? =
      c.repeatable h w live ((rows.map (editRow P f max?)).map (c.heldItem p title)) := by
  have items : (rows.map (c.heldItem p title)).map (·.withItems P f max?) =
      (rows.map (editRow P f max?)).map (c.heldItem p title) := by
    rw [List.map_map, List.map_map]
    exact List.map_congr_left fun r _ => withItems_heldItem title r
  rw [← items, Context.repeatable, WidgetTree.withItems_of_ne, List.map_append]
  · rfl
  · exact fun same => other same.2

theorem withItems_repeatable_self {w : Widget} {items items' : List WidgetTree}
    (hw : w.path = p) (edited : f (items ++ [c.addControl p]) = items' ++ [c.addControl p])
    (live live' : LiveItems) :
    (c.repeatable h w live items).withItems p f live'.max? = c.repeatable h w live' items' := by
  subst hw
  rw [Context.repeatable, WidgetTree.withItems, if_pos ⟨rfl, rfl⟩, edited]
  rfl

theorem heldItem_path (title : String) (r : Nat × WidgetTree) :
    (c.heldItem p title r).path = p ++ [.index r.1] := by
  obtain ⟨_, -, wrapped, -⟩ := wrapItem_eq c p title r.1 r.2
  exact wrapped.path

theorem dropItem_items (title : String) (rows : List (Nat × WidgetTree)) :
    dropItem p i (rows.map (c.heldItem p title) ++ [c.addControl p]) =
      (rows.filter fun r => r.1 != i).map (c.heldItem p title) ++ [c.addControl p] := by
  have control : (c.addControl p).path ≠ p ++ [.index i] := by
    intro same
    cases List.append_cancel_left same
  have index (j : Nat) : (p ++ [Segment.index j] != p ++ [.index i]) = (j != i) :=
    Bool.eq_iff_iff.2 (by simp)
  simp [dropItem, List.filter_map, Function.comp_def, heldItem_path, index, control]

theorem withItems_dropItem {w : Widget} (hw : w.path = p) (live : LiveItems)
    (title : String) (rows : List (Nat × WidgetTree)) (i : Nat) :
    (c.repeatable h w live (rows.map (c.heldItem p title))).withItems p (dropItem p i)
        (live.indices.erase i).getLast? =
      c.repeatable h w { live with indices := live.indices.erase i }
        ((rows.filter fun r => r.1 != i).map (c.heldItem p title)) :=
  withItems_repeatable_self hw (dropItem_items title rows) live
    { live with indices := live.indices.erase i }

theorem withItems_insertItem {w : Widget} (hw : w.path = p) (live live' : LiveItems)
    (title : String) (rows : List (Nat × WidgetTree)) (r : Nat × WidgetTree) :
    (c.repeatable h w live (rows.map (c.heldItem p title))).withItems p
        (insertItem (c.heldItem p title r)) live'.max? =
      c.repeatable h w live' ((rows ++ [r]).map (c.heldItem p title)) := by
  refine withItems_repeatable_self hw ?_ live live'
  rw [WidgetTree.insertItem_append ?_ rfl]
  · simp
  · intro t ht
    obtain ⟨r', -, rfl⟩ := List.mem_map.1 ht
    obtain ⟨_, -, wrapped, -⟩ := wrapItem_eq c p title r'.1 r'.2
    rw [Context.heldItem, wrapped.kind]
    rintro ⟨⟩

theorem rows_eq_map {α : Type}
    {rows rows' : List (α × WidgetTree)} (all : rows'.map Prod.fst = rows.map Prod.fst)
    (each : ∀ (n : Nat) (r : α × WidgetTree) (tree : WidgetTree), rows[n]? = some r →
      rows'[n]? = some (r.1, tree) → tree = r.2.withItems P f max?) :
    rows' = rows.map (editRow P f max?) := by
  induction rows generalizing rows' with
  | nil => exact List.map_eq_nil_iff.1 all
  | cons r rows ih =>
      obtain ⟨⟨a, tree⟩, rest, rfl, rfl, others⟩ := List.map_eq_cons_iff.1 all
      rw [List.map_cons, ih others fun n => each (n + 1), editRow, each 0 r tree rfl rfl]

theorem exists_rows_concat {rows rows' : List (Nat × WidgetTree)}
    (all : rows'.map Prod.fst = rows.map Prod.fst ++ [i])
    (each : ∀ (n : Nat) (r : Nat × WidgetTree) (tree : WidgetTree), rows[n]? = some r →
      rows'[n]? = some (r.1, tree) → tree = r.2) :
    ∃ element, rows' = rows ++ [(i, element)] := by
  induction rows generalizing rows' with
  | nil =>
      obtain ⟨⟨j, element⟩, rfl, rfl⟩ := List.map_eq_singleton_iff.1 all
      exact ⟨element, rfl⟩
  | cons r rows ih =>
      obtain ⟨⟨a, tree⟩, rest, rfl, rfl, others⟩ := List.map_eq_cons_iff.1 all
      obtain ⟨element, rfl⟩ := ih others fun n => each (n + 1)
      obtain rfl := each 0 r tree rfl rfl
      exact ⟨element, rfl⟩

end Compile
end FormTree
