import FormTree.Proofs.Compile.Edited
import FormTree.Proofs.Compile.Items

/-!
What an added or a removed item changes in a form. The same tree comes out again
but for the items of the one field, provided that its items do not get their
values by their places in a list.
-/

namespace FormTree

open WidgetTree (At Placed Retouched Removable Row dropItem insertItem)

namespace Compile

variable {c : Context} {T T' : RepeatTable} {name : String} {p P : Path} {h : Hint}
  {input : Option Json} {s : Schema} {tree tree' n : WidgetTree}

/-- The repeated fields of a settled tree are where the tree is, or below. -/
private theorem Settled.isPrefix (settled : Settled c T name p h input s tree)
    (hn : n ∈ tree.nodes) (kind : n.widget.kind = .repeatable) : p <+: n.path := by
  induction settled generalizing n with
  | single role built => exact absurd kind (not_repeatable_of_single (built T) role hn)
  | group _ _ _ _ ih =>
      rcases exists_of_mem_group hn with rfl | ⟨r, hr, m, hm, same⟩
      · cases kind
      · rw [same.path]
        exact (List.prefix_append ..).trans (ih r hr hm (same.kind.symm.trans kind))
  | repeated _ _ _ _ _ _ _ ih =>
      rcases exists_of_mem_repeatable rfl hn kind with rfl | ⟨r, hr, m, hm, same⟩
      · exact List.prefix_rfl
      · obtain ⟨place, hplace⟩ := List.mem_iff_getElem?.1 hr
        rw [same.path]
        exact (List.prefix_append ..).trans (ih place r hplace hm (same.kind.symm.trans kind))

/-- An edit of a field does not reach into its own elements. -/
private theorem Settled.withItems_element {q : Path} {f : List WidgetTree → List WidgetTree}
    {max? : Option Nat} (settled : Settled c T name q h input s tree)
    (below : P.length < q.length) : tree.withItems P f max? = tree := by
  apply WidgetTree.withItems_eq_self
  rintro n hn kind rfl
  have := (settled.isPrefix hn kind).length_le
  omega

private theorem withItems_single {f : List WidgetTree → List WidgetTree} {max? : Option Nat}
    (hok : node c T name p h input s = .ok (tree, T')) (role : s.role h = .single) :
    tree.withItems P f max? = tree := by
  apply WidgetTree.withItems_eq_self
  intro n hn kind
  exact absurd kind (not_repeatable_of_single hok role hn)

/-- No list is entered where the field at a path is. -/
def NoList (P : Path) (tree : WidgetTree) (input : Option Json) : Prop :=
  ∀ rel tokens n input', At tree rel tokens n → n.path = P → Inputs input rel tokens input' →
    ∀ items, input' ≠ some (.array items)

section NoList

private theorem NoList.property {w : Widget} {required : List String}
    {rows : List ((String × Schema) × WidgetTree)} {r : (String × Schema) × WidgetTree}
    (noList : NoList P (.node w (rows.map (heldProperty required))) input) (kind : w.kind = .group)
    (hr : r ∈ rows) (path : r.2.path = w.path ++ [.property r.1.1]) :
    NoList P r.2 (input.bind (·.member? r.1.1)) := by
  intro rel tokens n input' hat here inputs
  obtain ⟨m, hat, same⟩ := exists_at_group kind hr path hat
  exact noList _ _ m input' hat (same.path.trans here) (.property inputs)

private theorem NoList.item {w : Widget} {live : LiveItems} {title : String}
    {rows : List (Nat × WidgetTree)} {r : Nat × WidgetTree} {place : Nat}
    (noList : NoList P (c.repeatable h w live (rows.map (c.heldItem w.path title))) input)
    (hr : rows[place]? = some r) : NoList P r.2 (itemInput input place r.1) := by
  intro rel tokens n input' hat here inputs
  obtain ⟨m, hat, same⟩ := exists_at_repeatable hr hat
  exact noList _ _ m input' hat (same.path.trans here) (.item inputs)

private theorem itemInput_eq (noList : ∀ items, input ≠ some (.array items))
    (place place' i : Nat) : itemInput input place i = itemInput input place' i := by
  rw [itemInput.eq_def, itemInput.eq_def]
  split
  · exact absurd rfl (noList _)
  · rfl
  · rfl

end NoList

/-- The field at a path has a key, and the table knows it to be there. -/
structure Recorded (c : Context) (T : RepeatTable) (k : FieldKey) (p : Path) (live : LiveItems) :
    Prop where
  key : FieldKey.ofPath? (c.schemaPath p) = some k
  known : T.find? k = some live
  location : live.location = p

section Recorded

variable {k k' : FieldKey} {live live' : LiveItems} {i : Nat}

theorem Recorded.unique (h : Recorded c T k P live) (h' : Recorded c T k' P live') :
    k' = k ∧ live' = live := by
  obtain rfl : k' = k := Option.some.inj (h'.key.symm.trans h.key)
  exact ⟨rfl, Option.some.inj (h'.known.symm.trans h.known)⟩

theorem Recorded.ne (h : Recorded c T k P live) (h' : Recorded c T k' p live') (other : p ≠ P) :
    k' ≠ k := by
  rintro rfl
  obtain rfl := Option.some.inj (h'.known.symm.trans h.known)
  exact other (h'.location.symm.trans h.location)

/-- Without one of its items, a tree is settled under a table without it. -/
private theorem Settled.without (settled : Settled c T name p h input s tree)
    (field : Recorded c T k P live) (nodup : live.indices.Nodup)
    (removed : T'.find? k = some { live with indices := live.indices.erase i })
    (others : ∀ j ≠ k, T'.find? j = T.find? j) (noList : NoList P tree input) :
    Settled c T' name p h input s
      (tree.withItems P (dropItem P i) (live.indices.erase i).getLast?) := by
  induction settled with
  | single role built =>
      rw [withItems_single (built T) role]
      exact .single role built
  | @group name p h input s properties required rows role depth all below ih =>
      rw [withItems_group]
      refine .group role depth ((fst_editRow rows).trans all) ?_
      intro r' hr'
      obtain ⟨r, hr, rfl⟩ := List.mem_map.1 hr'
      exact ih r hr (noList.property rfl hr (stands_of_node (below r hr).node).path)
  | @repeated name p h input s items key live' rows role depth key' known location all below ih =>
      have here : Recorded c T key p live' := ⟨key', known, location⟩
      by_cases same : p = P
      · subst same
        obtain ⟨rfl, rfl⟩ := field.unique here
        have kept : (rows.filter fun r => r.1 != i).map Prod.fst = live'.indices.erase i := by
          rw [nodup.erase_eq_filter, ← all, List.filter_map]
          rfl
        have path : (c.scaffold s name p h none).path = p := rfl
        rw [withItems_dropItem path]
        refine .repeated role depth key' removed location kept ?_
        intro n r hr
        have inside := (List.mem_filter.1 (List.mem_of_getElem? hr)).1
        obtain ⟨place, hplace⟩ := List.mem_iff_getElem?.1 inside
        have element := ih place r hplace (noList.item hplace)
        -- The item may have moved up, but its input does not come by its place.
        have entered := noList _ _ _ input (.here _) rfl (.here input)
        rw [itemInput_eq entered n place]
        rwa [(below place r hplace).withItems_element (by simp)] at element
      · rw [withItems_repeatable same]
        refine .repeated role depth key' ((others key (field.ne here same)).trans known) location
          ((fst_editRow rows).trans all) ?_
        intro n r' hr'
        rw [List.getElem?_map] at hr'
        obtain ⟨r, hr, rfl⟩ := Option.map_eq_some_iff.1 hr'
        exact ih n r hr (noList.item hr)

/-- No other widget than the item is held under the path. -/
def Only (q : Path) (item tree : WidgetTree) : Prop :=
  ∀ n ∈ tree.nodes, ∀ child ∈ n.children, child.path = q → child = item

private theorem Only.inside {q : Path} {item child : WidgetTree} (only : Only q item tree)
    (held : ∀ n ∈ child.nodes, ∃ m ∈ tree.nodes, Retouched n m) : Only q item child := by
  intro n hn
  obtain ⟨m, hm, same⟩ := held n hn
  rw [← same.children]
  exact only m hm

private theorem repeatable_insertItem {w : Widget} (hw : w.path = p) {title : String}
    {item : WidgetTree} {rows rows' : List (Nat × WidgetTree)}
    (added : live'.indices = live.indices ++ [i])
    (all : rows.map Prod.fst = live.indices) (all' : rows'.map Prod.fst = live'.indices)
    (each : ∀ (n : Nat) (r : Nat × WidgetTree) (child : WidgetTree), rows[n]? = some r →
      rows'[n]? = some (r.1, child) → child = r.2)
    (only : Only (p ++ [.index i]) item
      (c.repeatable h w live' (rows'.map (c.heldItem p title)))) :
    c.repeatable h w live' (rows'.map (c.heldItem p title)) =
      (c.repeatable h w live (rows.map (c.heldItem p title))).withItems p (insertItem item)
        (some i) := by
  rw [added, ← all] at all'
  obtain ⟨element, rfl⟩ := exists_rows_concat all' each
  have here : c.heldItem p title (i, element) = item := by
    refine only _ (WidgetTree.mem_nodes_self _) _ ?_ (heldItem_path _ _)
    exact List.mem_append_left _ (List.mem_map_of_mem (by simp))
  have max : live'.max? = some i := by rw [LiveItems.max?, added, List.getLast?_concat]
  rw [← here, ← max, withItems_insertItem hw]

/-- A tree settled under a table with one more item has that item, and is the same otherwise. -/
private theorem Settled.insert {item : WidgetTree} (settled : Settled c T name p h input s tree)
    (field : Recorded c T k P live) (added : T'.indices k = live.indices ++ [i])
    (others : ∀ j live, j ≠ k → T.find? j = some live → T'.indices j = live.indices)
    (settled' : Settled c T' name p h input s tree') (only : Only (P ++ [.index i]) item tree') :
    tree' = tree.withItems P (insertItem item) (some i) := by
  induction settled generalizing tree' with
  | single role built =>
      have same := (built T').symm.trans settled'.node
      rw [withItems_single (built T) role, (Prod.mk.inj (Except.ok.inj same)).1]
  | @group name p h input s properties required rows role depth all below ih =>
      cases settled' with
      | single role' _ | repeated role' _ _ _ _ _ _ => cases role.symm.trans role'
      | @group _ _ _ _ _ _ _ rows' role' _ all' below' =>
          cases role.symm.trans role'
          have edited : rows' = rows.map (editRow P (insertItem item) (some i)) := by
            refine rows_eq_map (all'.trans all.symm) ?_
            intro n r child hr hr'
            have inside := List.mem_of_getElem? hr'
            refine ih r (List.mem_of_getElem? hr) (below' _ inside) ?_
            exact only.inside fun m => exists_mem_group inside
          rw [withItems_group, edited]
  | @repeated name p h input s items key live' rows role depth key' known location all below ih =>
      cases settled' with
      | single role' _ | group role' _ _ _ => cases role.symm.trans role'
      | @repeated _ _ _ _ _ _ _ later rows' role' _ field' known' _ all' below' =>
          cases role.symm.trans role'
          cases key'.symm.trans field'
          have here : Recorded c T key p live' := ⟨key', known, location⟩
          have indices := RepeatTable.indices_of_find? known'
          have each : ∀ (n : Nat) (r : Nat × WidgetTree) (child : WidgetTree), rows[n]? = some r →
              rows'[n]? = some (r.1, child) →
                child = r.2.withItems P (insertItem item) (some i) := by
            intro n r child hr hr'
            refine ih n r hr (below' n _ hr') ?_
            exact only.inside fun m => exists_mem_repeatable (List.mem_of_getElem? hr')
          by_cases same : p = P
          · subst same
            obtain ⟨rfl, rfl⟩ := field.unique here
            refine repeatable_insertItem rfl (indices.symm.trans added) all all' ?_ only
            intro n r child hr hr'
            rw [each n r child hr hr', (below n r hr).withItems_element (by simp)]
          · have kept := indices.symm.trans (others key live' (field.ne here same) known)
            rw [withItems_repeatable same, repeatable_congr kept,
              rows_eq_map (all'.trans (kept.trans all.symm)) each]

end Recorded

end Compile

section Form

variable {options : CompileOptions} {root : Path} {d : SchemaDocument} {h : Hint}
  {input : Option Json} {t : RepeatTable} {form : CompiledForm} {n : WidgetTree}

open Compile

private theorem recorded_of_compileForm (accepted : d.Accepted) (reachable : t.Reachable)
    (hok : compileForm options root d h input t = .ok form) (hn : n ∈ form.tree.nodes)
    (kind : n.widget.kind = .repeatable) :
    ∃ k live, FieldKey.ofPath? n.widget.propPath = some k ∧
      Recorded ⟨options, root⟩ form.table k n.path live ∧ live.InOrder := by
  obtain ⟨k, live, key, known, location, -⟩ :=
    (settled_of_compileForm accepted reachable hok).items hn kind
  obtain ⟨_, _, _, _, _, place⟩ := reached_of_compileForm accepted reachable hok hn kind
  have inOrder := (compileForm_ok hok).1.inOrder reachable.inOrder k
  rw [RepeatTable.record_of_find? known] at inOrder
  refine ⟨k, live, key, ⟨?_, known, location⟩, inOrder⟩
  rw [← key, place]
  rfl

/-- The form comes out without an item that is removed. -/
private theorem compileForm_remove (accepted : d.Accepted) (reachable : t.Reachable)
    (hok : compileForm options root d h input t = .ok form) {k : FieldKey} {live : LiveItems}
    (field : Recorded ⟨options, root⟩ form.table k n.path live) (inOrder : live.InOrder) {i : Nat}
    (hi : i ∈ live.indices) (noList : NoList n.path form.tree input) :
    (form.table.remove k i).1 = true ∧
      compileForm options root d h input (form.table.remove k i).2 =
        .ok ⟨form.tree.withItems n.path (dropItem n.path i) (live.indices.erase i).getLast?,
          (form.table.remove k i).2⟩ := by
  have records := RepeatTable.find?_remove field.known inOrder hi
  have ordered : form.table.InOrder := (compileForm_ok hok).1.inOrder reachable.inOrder
  constructor
  · rw [(RepeatTable.record_remove ordered k i k).1, RepeatTable.record_of_find? field.known]
    exact hi
  · have settled := settled_of_compileForm accepted reachable hok
    refine compileForm_of_settled (settled.without field inOrder.nodup ?_ ?_ noList)
    · rw [records, if_pos rfl]
    · intro j other
      rw [records, if_neg other]

private theorem exists_only {p : Path} {tree : WidgetTree} (placed : Placed p tree) (q : Path) :
    ∃ item, Only q item tree := by
  by_cases h : ∃ m ∈ tree.nodes, ∃ x ∈ m.children, x.path = q
  · obtain ⟨m, hm, x, hx, here⟩ := h
    refine ⟨x, fun m' hm' x' hx' here' => ?_⟩
    exact placed.eq_of_path (placed.mem_nodes_of_child hm' hx') (placed.mem_nodes_of_child hm hx)
      (here'.trans here.symm)
  · exact ⟨tree, fun m hm x hx here => absurd ⟨m, hm, x, hx, here⟩ h⟩

/-- A form compiled after an item was added has that item, and is the same otherwise. -/
private theorem compileForm_add (accepted : d.Accepted) (reachable : t.Reachable)
    (hok : compileForm options root d h input t = .ok form) (hn : n ∈ form.tree.nodes)
    (kind : n.widget.kind = .repeatable) {k : FieldKey} {live : LiveItems}
    (key : FieldKey.ofPath? n.widget.propPath = some k)
    (field : Recorded ⟨options, root⟩ form.table k n.path live) (inOrder : live.InOrder) {i : Nat}
    {t' : RepeatTable} (added : form.table.add? k = some (i, t')) {form' : CompiledForm}
    (hok' : compileForm options root d h input t' = .ok form') :
    ∃ row : Row, row.index = i ∧ Removable n.path row ∧
      form'.tree = form.tree.withItems n.path (insertItem row.item) (some i) := by
  have reachable' : t'.Reachable := .step (.step reachable (.compile hok)) (.of_add? added)
  have records := RepeatTable.find?_add field.known inOrder added
  have grows := (compileForm_ok hok').1.grows
  have placed := (layout_of_compileForm accepted reachable hok).placed
  have settled := settled_of_compileForm accepted reachable hok
  have settled' := settled_of_compileForm accepted reachable' hok'
  obtain ⟨item, only⟩ :=
    exists_only (layout_of_compileForm accepted reachable' hok').placed (n.path ++ [.index i])
  have indices {j : FieldKey} {live' : LiveItems} (known : t'.find? j = some live') :
      form'.table.indices j = live'.indices := by
    rw [grows.indices (Option.isSome_of_eq_some known), RepeatTable.indices_of_find? known]
  have grown : form'.table.indices k = live.indices ++ [i] :=
    indices ((records k).trans (if_pos rfl))
  have edited : form'.tree = form.tree.withItems n.path (insertItem item) (some i) := by
    refine settled.insert field grown ?_ settled' only
    intro j live' other known
    exact indices ((records j).trans ((if_neg other).trans known))
  have inside := placed.mem_withItems hn kind (insertItem item) (some i)
  rw [← edited] at inside
  obtain ⟨k', live', key', known, -, -, rows, add, children, all, removable, -⟩ :=
    settled'.items inside kind
  cases key.symm.trans key'
  rw [RepeatTable.indices_of_find? known] at grown
  obtain ⟨row, hrow, index⟩ := List.mem_map.1 (show i ∈ rows.map Row.index by simp [all, grown])
  have child : row.item ∈ rows.map Row.item ++ [add] := by simp [List.mem_map_of_mem hrow]
  have path := (removable row hrow).item.path
  rw [index] at path
  have here := only _ inside row.item (children ▸ child) path
  exact ⟨row, index, removable row hrow, here ▸ edited⟩

/-- An item that is added or removed changes what its field holds, and nothing else. Values that
come from a list move up with a removal, and so that is left out. -/
theorem edits_change_one_field (accepted : d.Accepted) (reachable : t.Reachable)
    (hok : compileForm options root d h input t = .ok form) (hn : n ∈ form.tree.nodes)
    (kind : n.widget.kind = .repeatable) :
    ∃ k rel tokens input', FieldKey.ofPath? n.widget.propPath = some k ∧
      At form.tree rel tokens n ∧ Inputs input rel tokens input' ∧
        (∀ i ∈ form.table.indices k, (∀ items, input' ≠ some (.array items)) →
          (form.table.remove k i).1 = true ∧
            compileForm options root d h input (form.table.remove k i).2 =
              .ok ⟨form.tree.withItems n.path (dropItem n.path i)
                  ((form.table.indices k).erase i).getLast?, (form.table.remove k i).2⟩) ∧
          ∀ i t', form.table.add? k = some (i, t') →
            ∀ form', compileForm options root d h input t' = .ok form' →
              ∃ row : Row, row.index = i ∧ Removable n.path row ∧
                form'.tree = form.tree.withItems n.path (insertItem row.item) (some i) := by
  have layout := layout_of_compileForm accepted reachable hok
  obtain ⟨k, live, key, field, inOrder⟩ := recorded_of_compileForm accepted reachable hok hn kind
  obtain ⟨rel, tokens, input', hat, inputs, -⟩ :=
    reached_of_compileForm accepted reachable hok hn kind
  refine ⟨k, rel, tokens, input', key, hat, inputs, ?_, ?_⟩
  · rw [RepeatTable.indices_of_find? field.known]
    intro i hi noList
    refine compileForm_remove accepted reachable hok field inOrder hi ?_
    intro rel' tokens' n' entered hat' path inputs'
    obtain rfl := layout.placed.eq_of_path hat'.mem_nodes hn path
    obtain ⟨rfl, rfl⟩ := hat.unique layout hat'
    rwa [inputs'.unique inputs]
  · intro i t' added form' hok'
    exact compileForm_add accepted reachable hok hn kind key field inOrder added hok'

end Form

private def textsTable : RepeatTable :=
  ⟨RepeatTable.twoRows.fields.insert (.row 2) ⟨[0, 3], 4, []⟩, false⟩

/-- Texts entered in the third row, under their indices. -/
private def textsByIndex : Json :=
  .object [("rows", .object
    [("2", .object [("0", .string "a"), ("3", .string "b"), ("4", .string "c")])])]

private def compileTexts (t : RepeatTable) : Except CompileError CompiledForm :=
  compileRows (some textsByIndex) t

private def thirdRow : Path := [.property "form", .property "rows", .index 2, .wrapper]

private def isThirdRow (n : WidgetTree) : Bool :=
  n.isRepeated && FieldKey.ofPath? n.widget.propPath == some (.row 2) && n.path == thirdRow

/-- The values that the fields of a tree show. -/
private def shownValues (t : WidgetTree) : List Json := t.nodes.filterMap (·.widget.defaultValue)

private theorem compileTexts_before :
    (compileTexts textsTable).map (fun form =>
      ((form.tree.nodes.find? isThirdRow).isSome, form.table.indices (.row 2),
        shownValues form.tree)) =
      .ok (true, [0, 3], [.string "a", .string "b"]) := by decide +kernel

private theorem compileTexts_without :
    ((compileTexts textsTable).bind fun form =>
      compileTexts (form.table.remove (.row 2) 0).2).map (fun form => shownValues form.tree) =
      .ok [.string "b"] := by decide +kernel

private theorem compileTexts_with :
    ((compileTexts textsTable).map fun form => form.table.add? (.row 2)).map (fun added =>
      added.map fun a => (a.1, (compileTexts a.2).map fun form => shownValues form.tree)) =
      .ok (some (4, .ok [.string "a", .string "b", .string "c"])) := by decide +kernel

private theorem noList_of_textsByIndex {tokens : List String} {input : Option Json}
    (inputs : Compile.Inputs (some textsByIndex) [.property "rows", .index 2, .wrapper] tokens
      input) : ∀ items, input ≠ some (.array items) := by
  cases inputs with
  | property below =>
      cases below with
      | item below =>
          cases below
          rintro items ⟨⟩

/-- The first text of the third row is removed, or the next one comes in with what is entered for
it. The other text stays with its item. -/
theorem edits_change_one_field_in_rows : ∃ form n t' form' row,
    rowsOfTexts.Accepted ∧ textsTable.Reachable ∧ compileTexts textsTable = .ok form ∧
      n ∈ form.tree.nodes ∧ n.widget.kind = .repeatable ∧
        FieldKey.ofPath? n.widget.propPath = some (.row 2) ∧
          shownValues form.tree = [.string "a", .string "b"] ∧
          compileTexts (form.table.remove (.row 2) 0).2 =
            .ok ⟨form.tree.withItems n.path (dropItem n.path 0) (some 3),
              (form.table.remove (.row 2) 0).2⟩ ∧
            shownValues (form.tree.withItems n.path (dropItem n.path 0) (some 3)) =
              [.string "b"] ∧
            form.table.add? (.row 2) = some (4, t') ∧ compileTexts t' = .ok form' ∧
              row.index = 4 ∧ Removable n.path row ∧
                form'.tree = form.tree.withItems n.path (insertItem row.item) (some 4) ∧
                  shownValues form'.tree = [.string "a", .string "b", .string "c"] := by
  have same : RepeatTable.twoRows.set (.row 2) ⟨[0, 3], 4, []⟩ = textsTable :=
    RepeatTable.set_of_inOrder _ _ (by decide)
  have reachable : textsTable.Reachable :=
    same ▸ .set (.row 2) (by decide) RepeatTable.twoRows_reachable
  have before := compileTexts_before
  have without := compileTexts_without
  have later := compileTexts_with
  cases hok : compileTexts textsTable with
  | error e => rw [hok] at before; cases before
  | ok form =>
      rw [hok] at before without later
      obtain ⟨found, before⟩ := Prod.mk.inj (Except.ok.inj before)
      obtain ⟨indices, before⟩ := Prod.mk.inj before
      obtain ⟨n, hn⟩ := Option.isSome_iff_exists.1 found
      obtain ⟨⟨i, t'⟩, hadd, added⟩ := Option.map_eq_some_iff.1 (Except.ok.inj later)
      obtain ⟨rfl, after⟩ := Prod.mk.inj added
      obtain ⟨form', hok', after⟩ : ∃ form', compileTexts t' = .ok form' ∧
          shownValues form'.tree = [.string "a", .string "b", .string "c"] := by
        cases h : compileTexts t' with
        | error e => rw [h] at after; cases after
        | ok form' => rw [h] at after; exact ⟨form', rfl, Except.ok.inj after⟩
      have isRow := List.find?_some hn
      rw [isThirdRow, Bool.and_eq_true, Bool.and_eq_true, WidgetTree.isRepeated_iff, beq_iff_eq,
        beq_iff_eq] at isRow
      obtain ⟨⟨kind, named⟩, path⟩ := isRow
      have inside := List.mem_of_find?_eq_some hn
      obtain ⟨k, rel, _, input', key, hat, inputs, remove, add⟩ :=
        edits_change_one_field rowsOfTexts_accepted reachable hok inside kind
      cases key.symm.trans named
      have noList : ∀ items, input' ≠ some (.array items) := by
        obtain ⟨_, _, _, _, _, _, shown⟩ :=
          (compileForm_ok hok).2.field hat rowsOfTexts_accepted.sound
        have way : [.property "form"] ++ [.property "rows", .index 2, .wrapper] =
            [.property "form"] ++ rel := path.symm.trans shown.stands.path
        obtain rfl := List.append_cancel_left way
        exact noList_of_textsByIndex inputs
      rw [indices] at remove
      obtain ⟨-, removed⟩ := remove 0 (by decide) noList
      change compileTexts _ = _ at removed
      change (compileTexts (form.table.remove (.row 2) 0).2).map _ = _ at without
      rw [removed] at without
      obtain ⟨row, index, removable, tree⟩ := add 4 t' hadd form' hok'
      exact ⟨form, n, t', form', row, rowsOfTexts_accepted, reachable, rfl, inside, kind, named,
        before, removed, Except.ok.inj without, hadd, hok', index, removable, tree, after⟩

end FormTree
