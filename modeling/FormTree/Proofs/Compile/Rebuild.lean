import FormTree.Proofs.Compile.Settled

/-!
Compilations from a table that a compilation left. The table has a record for
every field by then, so nothing about the structure of the form is open. Another
input changes the values in the tree, and nothing else.
-/

namespace FormTree

open WidgetTree (At)

namespace Compile

section Rows

variable {α : Type} {rows : List (α × WidgetTree)}

private def withoutValues (r : α × WidgetTree) : α × WidgetTree := (r.1, r.2.withoutValues)

/-- A tree for each row, chosen row by row, that has the same structure. -/
private theorem exists_rows {Q : Nat → α → WidgetTree → Prop}
    (each : ∀ n r, rows[n]? = some r →
      ∃ tree, Q n r.1 tree ∧ tree.withoutValues = r.2.withoutValues) :
    ∃ rows' : List (α × WidgetTree), rows'.map withoutValues = rows.map withoutValues ∧
      ∀ n r, rows'[n]? = some r → Q n r.1 r.2 := by
  induction rows generalizing Q with
  | nil => exact ⟨[], rfl, nofun⟩
  | cons r rows ih =>
      obtain ⟨tree, here, same⟩ := each 0 r rfl
      obtain ⟨rows', agree, rest⟩ := ih fun n => each (n + 1)
      refine ⟨(r.1, tree) :: rows', ?_, ?_⟩
      · rw [List.map_cons, List.map_cons, agree, withoutValues, withoutValues, same]
      · intro n r' hr'
        cases n with
        | zero =>
            cases hr'
            exact here
        | succ n => exact rest n r' hr'

private theorem map_eq_of_agree {γ : Type} {rows' : List (α × WidgetTree)}
    (agree : rows'.map withoutValues = rows.map withoutValues) (f : α × WidgetTree → γ) :
    rows'.map (fun r => f (r.1, r.2.withoutValues)) =
      rows.map fun r => f (r.1, r.2.withoutValues) := by
  have same := congrArg (List.map f) agree
  rwa [List.map_map, List.map_map] at same

end Rows

section Values

theorem withoutValues_heldProperty (required : List String)
    (r : (String × Schema) × WidgetTree) :
    (heldProperty required r).withoutValues = heldProperty required (r.1, r.2.withoutValues) := by
  obtain ⟨m, w, children⟩ := r
  simp only [heldProperty, withRequired, WidgetTree.withoutValues_node]
  split
  · rfl
  · rfl

theorem withoutValues_heldItem (c : Context) (p : Path) (title : String) (r : Nat × WidgetTree) :
    (c.heldItem p title r).withoutValues = c.heldItem p title (r.1, r.2.withoutValues) := by
  obtain ⟨i, w, children⟩ := r
  simp only [Context.heldItem, Context.wrapItem, Context.removeControl,
    WidgetTree.withoutValues_node, List.map_cons, List.map_nil]
  generalize c.options.itemTitle title i = itemTitle
  rfl

theorem withoutValues_repeatable (c : Context) (h : Hint) (w : Widget) (live : LiveItems)
    (items : List WidgetTree) :
    (c.repeatable h w live items).withoutValues =
      c.repeatable h w live (items.map WidgetTree.withoutValues) := by
  simp only [Context.repeatable, Context.addControl, WidgetTree.withoutValues_node, List.map_append,
    List.map_cons, List.map_nil]
  rfl

end Values

variable {c : Context} {T : RepeatTable} {name : String} {p : Path} {h : Hint}
  {input : Option Json} {s : Schema} {tree : WidgetTree}

/-- Under the same table another input settles a tree that differs in its values only. -/
theorem Settled.at_input (settled : Settled c T name p h input s tree) (input' : Option Json) :
    ∃ tree', Settled c T name p h input' s tree' ∧ tree'.withoutValues = tree.withoutValues := by
  induction settled generalizing input' with
  | @single name p h input s tree role built =>
      obtain ⟨w, built', same⟩ := node_single_eq (built T) role
      obtain rfl : tree = .node (w input) [] :=
        congrArg Prod.fst (Except.ok.inj ((built T).symm.trans (built' T input)))
      refine ⟨.node (w input') [], .single role fun t => built' t input', ?_⟩
      rw [WidgetTree.withoutValues_node, WidgetTree.withoutValues_node, same input' input]
  | @group name p h input s properties required rows role depth all _ ih =>
      obtain ⟨rows', agree, below⟩ := exists_rows
        (Q := fun _ m tree => Settled c T m.1 (p ++ [.property m.1]) (h.child m.1)
          (input'.bind (·.member? m.1)) m.2 tree)
        fun n r hr => ih r (List.mem_of_getElem? hr) _
      refine ⟨_, .group role depth ((map_eq_of_agree agree Prod.fst).trans all) ?_, ?_⟩
      · intro r hr
        obtain ⟨n, hn⟩ := List.mem_iff_getElem?.1 hr
        exact below n r hn
      · simp only [WidgetTree.withoutValues_node, List.map_map, Function.comp_def,
          withoutValues_heldProperty]
        rw [map_eq_of_agree agree]
  | @repeated name p h input s items key live rows role depth field known location all _ ih =>
      obtain ⟨rows', agree, below⟩ := exists_rows
        (Q := fun n i tree => Settled c T (toString i) (p ++ [.index i, .wrapper]) h.item
          (itemInput input' n i) items tree)
        fun n r hr => ih n r hr _
      refine ⟨_, .repeated role depth field known location
        ((map_eq_of_agree agree Prod.fst).trans all) below, ?_⟩
      simp only [withoutValues_repeatable, List.map_map, Function.comp_def, withoutValues_heldItem]
      rw [map_eq_of_agree agree]

end Compile

namespace CompiledForm

/-- A repeated field of the form has the key. -/
def Uses (form : CompiledForm) (k : FieldKey) : Prop :=
  ∃ n ∈ form.tree.nodes, n.widget.kind = .repeatable ∧
    FieldKey.ofPath? n.widget.propPath = some k

/-- The table of the form is the one before it with records for the fields that had none, each
with the items of the input that reaches the field. -/
structure Extends (form : CompiledForm) (t : RepeatTable) (input : Option Json) : Prop where
  kept : ∀ k live, t.find? k = some live → ∃ live', form.table.find? k = some live' ∧
    live'.indices = live.indices ∧ live'.nextIndex = live.nextIndex ∧
      (¬form.Uses k → live' = live)
  new : ∀ k, t.find? k = none → ((form.table.find? k).isSome = true ↔ form.Uses k)
  made : ∀ n ∈ form.tree.nodes, n.widget.kind = .repeatable →
    ∀ k, FieldKey.ofPath? n.widget.propPath = some k → t.find? k = none →
      ∃ rel tokens input', At form.tree rel tokens n ∧ Compile.Inputs input rel tokens input' ∧
        form.table.find? k = some (.ofCount (Compile.itemCount input') n.path)
  rebuild : form.table.rebuild = t.rebuild

end CompiledForm

section Form

variable {options : CompileOptions} {root : Path} {d : SchemaDocument} {h : Hint}
  {input : Option Json} {t : RepeatTable} {form : CompiledForm}

theorem extends_of_compileForm (accepted : d.Accepted) (reachable : t.Reachable)
    (hok : compileForm options root d h input t = .ok form) : form.Extends t input := by
  have placed := (layout_of_compileForm accepted reachable hok).placed
  obtain ⟨visits, table, nodup, meets, visited⟩ := visits_of_compileForm accepted reachable hok
  have unused {k : FieldKey} (hk : ¬form.Uses k) : form.table.find? k = t.find? k := by
    rw [table]
    apply RepeatTable.find?_visitAll_of_not_mem
    intro inside
    obtain ⟨v, hv, rfl⟩ := List.mem_map.1 inside
    obtain ⟨_, _, n, _, hat, _, kind, _, key, _⟩ := meets.reached v hv
    exact hk ⟨n, hat.mem_nodes, kind, key⟩
  have made : ∀ n ∈ form.tree.nodes, n.widget.kind = .repeatable →
      ∀ k, FieldKey.ofPath? n.widget.propPath = some k → t.find? k = none →
        ∃ rel tokens input', At form.tree rel tokens n ∧ Compile.Inputs input rel tokens input' ∧
          form.table.find? k = some (.ofCount (Compile.itemCount input') n.path) := by
    intro n hn kind k key unknown
    obtain ⟨v, hv, location, key'⟩ := visited n hn kind
    cases key.symm.trans key'
    obtain ⟨rel, tokens, n', input', hat, inputs, -, path, -, count⟩ := meets.reached v hv
    obtain rfl := placed.eq_of_path hat.mem_nodes hn (path.trans location)
    refine ⟨rel, tokens, input', hat, inputs, ?_⟩
    rw [table, RepeatTable.find?_visitAll nodup hv, RepeatTable.ensured, unknown, ← count, location]
    rfl
  refine ⟨?_, ?_, made, ?_⟩
  · intro k live known
    obtain ⟨live', known', indices, mark⟩ := RepeatTable.grows_visitAll t visits k live known
    rw [← table] at known'
    refine ⟨live', known', indices, mark, fun hk => ?_⟩
    exact Option.some.inj ((known'.symm.trans (unused hk)).trans known)
  · intro k unknown
    constructor
    · intro known
      by_contra hk
      rw [unused hk, unknown] at known
      cases known
    · rintro ⟨n, hn, kind, key⟩
      obtain ⟨_, _, _, _, _, known⟩ := made n hn kind k key unknown
      rw [known]
      rfl
  · rw [table, RepeatTable.rebuild_visitAll]

/-- A compilation adds records to the table, and from there on the table alone says what the form
is made of, whatever is entered in it. -/
theorem structure_fixed_by_table (accepted : d.Accepted) (reachable : t.Reachable)
    (hok : compileForm options root d h input t = .ok form) :
    form.Extends t input ∧
      ∀ input', ∃ form', compileForm options root d h input' form.table = .ok form' ∧
        form'.table = form.table ∧ form'.tree.withoutValues = form.tree.withoutValues ∧
          (input' = input → form'.tree = form.tree) := by
  refine ⟨extends_of_compileForm accepted reachable hok, fun input' => ?_⟩
  have settled := settled_of_compileForm accepted reachable hok
  obtain ⟨tree, settled', same⟩ := settled.at_input input'
  refine ⟨⟨tree, form.table⟩, compileForm_of_settled settled', rfl, same, ?_⟩
  rintro rfl
  have again := (compileForm_of_settled settled').symm.trans (compileForm_of_settled settled)
  exact congrArg CompiledForm.tree (Except.ok.inj again)

end Form

private theorem compileRows_items :
    (compileRows (some listsOfTexts) .twoRows).map (fun form =>
      [FieldKey.rows, .row 0, .row 1, .row 2].map form.table.indices) =
        .ok [[0, 2], [0, 1], [], [0]] := by decide +kernel

/-- The rows are known, with a gap, and their texts are not. -/
theorem structure_fixed_by_table_of_rows : ∃ form,
    rowsOfTexts.Accepted ∧ RepeatTable.twoRows.Reachable ∧
      compileRows (some listsOfTexts) .twoRows = .ok form ∧
        ([.rows, .row 0, .row 1, .row 2].map form.table.indices = [[0, 2], [0, 1], [], [0]]) ∧
          form.Extends .twoRows (some listsOfTexts) ∧
            ∀ input', ∃ form', compileRows input' form.table = .ok form' ∧
              form'.table = form.table ∧ form'.tree.withoutValues = form.tree.withoutValues ∧
                (input' = some listsOfTexts → form'.tree = form.tree) := by
  have items := compileRows_items
  cases hok : compileRows (some listsOfTexts) .twoRows with
  | error e => rw [hok] at items; cases items
  | ok form =>
      rw [hok] at items
      exact ⟨form, rowsOfTexts_accepted, RepeatTable.twoRows_reachable, rfl, Except.ok.inj items,
        structure_fixed_by_table rowsOfTexts_accepted RepeatTable.twoRows_reachable hok⟩

end FormTree
