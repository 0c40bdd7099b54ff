import FormTree.Proofs.Compile.Settled
import FormTree.Proofs.Compile.Storable
import FormTree.Proofs.Widget.Errors
import FormTree.Proofs.Widget.Stored

/-!
The stored form of what compiles. Every widget of a form is under the mount, its
numbers come from the table and fit 64 bits, and an enumeration has one option for
each key. So a form is read back as it was stored, where no value of it is `null`.
-/

namespace FormTree

open WidgetTree (Retouched)

namespace Compile

/-- The widget is under the mount, by indices that fit 64 bits like its other numbers, and has one
option for each key. -/
structure Context.Admits (c : Context) (w : Widget) : Prop where
  place : ∃ rel, w.path = c.root ++ rel ∧ rel.Fits
  propPath : w.propPath = c.schemaPath w.path
  options : (w.options.map Prod.fst).Nodup
  cardinality : ∀ m, w.cardinality = some m → ∀ i, m.maxIndex = some i → i ≤ maxIndex
  delta : ∀ i, w.delta = some i → i ≤ maxIndex

variable {c : Context} {t t' T : RepeatTable} {name : String} {p rel : Path} {h : Hint}
  {input : Option Json} {s : Schema} {tree n m : WidgetTree} {w : Widget}

namespace Context.Admits

theorem propPath_fits (admits : c.Admits w) : w.propPath.Fits := by
  obtain ⟨rel, path, fits⟩ := admits.place
  rw [admits.propPath, path, Context.schemaPath, Path.relativeTo_append]
  exact fits.of_subset List.filter_sublist.subset

theorem withoutSynthetic_propPath (admits : c.Admits w) :
    w.propPath.withoutSynthetic = w.propPath := by
  rw [admits.propPath]
  exact Path.withoutSynthetic_idem _

theorem storable (admits : c.Admits w) (mount : c.root.Fits) : w.Storable := by
  obtain ⟨rel, path, fits⟩ := admits.place
  exact ⟨path ▸ mount.append fits, admits.propPath_fits, admits.options, admits.cardinality,
    admits.delta⟩

theorem retouched (admits : c.Admits m.widget) (same : Retouched m n) : c.Admits n.widget := by
  obtain ⟨_, _, _, _, hw⟩ := same
  rw [hw]
  exact ⟨admits.place, admits.propPath, admits.options, admits.cardinality, admits.delta⟩

end Context.Admits

/-- A widget without numbers of its own. -/
private theorem admits_plain (place : ∃ rel, w.path = c.root ++ rel ∧ rel.Fits)
    (propPath : w.propPath = c.schemaPath w.path) (options : (w.options.map Prod.fst).Nodup)
    (cardinality : w.cardinality = none) (delta : w.delta = none) : c.Admits w :=
  ⟨place, propPath, options, by rw [cardinality]; exact nofun,
    by rw [delta]; exact nofun⟩

private theorem nodup_optionsFor (h : Hint) (values : List Json) :
    ((optionsFor h values).map Prod.fst).Nodup :=
  Entries.nodup_keys_ofList _

private theorem single_admits (hok : node c t name p h input s = .ok (tree, t'))
    (hr : s.role h = .single) (place : p = c.root ++ rel) (fits : rel.Fits) :
    ∀ n ∈ tree.nodes, c.Admits n.widget := by
  suffices ∃ w, tree = .node w [] ∧ c.Admits w by
    obtain ⟨w, rfl, admits⟩ := this
    exact List.forall_mem_singleton.2 admits
  rw [node_eq (node_depth hok)] at hok
  rw [Schema.role] at hr
  dsimp only at hok
  split at hok
  · cases hok
    exact ⟨_, rfl, admits_plain ⟨rel, place, fits⟩ rfl List.nodup_nil rfl rfl⟩
  · cases hok
    exact ⟨_, rfl, admits_plain ⟨rel, place, fits⟩ rfl (nodup_optionsFor _ _) rfl rfl⟩
  · next items hs hres =>
    rw [hs, hres] at hr
    dsimp only at hr
    split at hr
    · next henum =>
      obtain ⟨values, hvalues⟩ := Option.isSome_iff_exists.1 henum
      rw [Context.repeated, hvalues] at hok
      cases hok
      exact ⟨_, rfl, admits_plain ⟨rel, place, fits⟩ rfl (nodup_optionsFor _ _) rfl rfl⟩
    · cases hr
  · next items _ _ _ =>
    cases hok
    refine ⟨_, rfl, admits_plain ⟨rel, place, fits⟩ rfl ?_ rfl rfl⟩
    change (((items.enumValues?.map (optionsFor h)).getD []).map Prod.fst).Nodup
    cases items.enumValues? with
    | none => exact List.nodup_nil
    | some values => exact nodup_optionsFor _ values
  · next hs hres =>
    rw [hs, hres] at hr
    cases hr
  · cases hok
  · cases hok
  · cases hok
  · cases hok
  · cases hok
    exact ⟨_, rfl, admits_plain ⟨rel, place, fits⟩ rfl List.nodup_nil rfl rfl⟩

/-- Every widget of a settled tree is admitted, where the table is in order. -/
theorem Settled.admits (settled : Settled c T name p h input s tree) (inOrder : T.InOrder)
    (place : p = c.root ++ rel) (fits : rel.Fits) : ∀ n ∈ tree.nodes, c.Admits n.widget := by
  induction settled generalizing rel with
  | single role built => exact single_admits (built T) role place fits
  | @group name p h input s properties required rows role _ all _ ih =>
      intro n hn
      rcases exists_of_mem_group hn with rfl | ⟨r, hr, m, hm, same⟩
      · exact admits_plain ⟨rel, place, fits⟩ rfl List.nodup_nil rfl rfl
      · have below : Path.Fits (rel ++ [.property r.1.1]) := fits.append (by simp [Path.Fits])
        exact (ih r hr (by rw [place, List.append_assoc]) below m hm).retouched same
  | @repeated name p h input s items key live rows role _ field known _ all _ ih =>
      have record : live.InOrder := by
        have here := inOrder key
        rwa [RepeatTable.record_of_find? known] at here
      have used {i : Nat} (hi : i ∈ live.indices) : i ≤ maxIndex :=
        Nat.le_trans (Nat.le_of_lt (record.below i hi)) record.fits
      -- Under an item there is one more index, and it is in use.
      have below {r : Nat × WidgetTree} (hr : r ∈ rows) {q : Path} (hq : q.Fits) :
          ∃ rel', p ++ .index r.1 :: q = c.root ++ rel' ∧ rel'.Fits := by
        have item : Path.Fits [.index r.1] := by
          intro n hn
          cases List.mem_singleton.1 hn
          exact used (all ▸ List.mem_map_of_mem hr)
        exact ⟨rel ++ .index r.1 :: q, by rw [place, List.append_assoc],
          fits.append (item.append hq)⟩
      have synthetic : Path.Fits [.control .remove] ∧ Path.Fits [.control .addMore] ∧
          Path.Fits [.wrapper] := by simp [Path.Fits]
      intro n hn
      rcases all_of_mem_repeatable rfl hn with rfl | rfl | ⟨r, hr, rfl | rfl | ⟨m, hm, same⟩⟩
      · refine ⟨⟨rel, place, fits⟩, rfl, List.nodup_nil, ?_, nofun⟩
        rintro _ ⟨⟩ i hi
        exact used (List.mem_of_getLast? hi)
      · refine admits_plain ⟨rel ++ [.control .addMore], ?_, fits.append synthetic.2.1⟩ rfl
          List.nodup_nil rfl rfl
        rw [← List.append_assoc, ← place]
        rfl
      · obtain ⟨i, v, held⟩ := r
        exact admits_plain (below hr .nil) rfl List.nodup_nil rfl rfl
      · refine ⟨?_, rfl, List.nodup_nil, nofun, ?_⟩
        · obtain ⟨rel', same, hrel'⟩ := below hr synthetic.1
          exact ⟨rel', (List.append_assoc ..).trans same, hrel'⟩
        · rintro i ⟨⟩
          exact used (all ▸ List.mem_map_of_mem hr)
      · obtain ⟨place', hr'⟩ := List.mem_iff_getElem?.1 hr
        obtain ⟨rel', path, hrel'⟩ := below hr synthetic.2.2
        exact (ih place' r hr' path hrel' m hm).retouched same

/-- A node has no default of `null`. -/
abbrev NoNull (s : Schema) : Prop := s.default ≠ some .null

/-- Values of `null` come from the defaults of the schema, never from the input. -/
theorem Settled.noNull (settled : Settled c T name p h input s tree)
    (everywhere : s.Everywhere NoNull) : ∀ n ∈ tree.nodes, n.widget.defaultValue ≠ some .null := by
  have retouched {m n : WidgetTree} (same : Retouched m n)
      (value : m.widget.defaultValue ≠ some .null) : n.widget.defaultValue ≠ some .null := by
    obtain ⟨_, _, _, _, hw⟩ := same
    rwa [hw]
  induction settled with
  | @single name p h input s tree role built =>
      obtain ⟨-, w, rfl, -, shows⟩ := node_single (built T) role
      refine List.forall_mem_singleton.2 ?_
      cases shows with
      | constant _ value => exact fun null => nomatch value.symm.trans null
      | entered _ value =>
          change w.defaultValue ≠ _
          rw [value]
          cases entered : input.filter (· ≠ .null) with
          | none => exact everywhere.here
          | some v =>
              have kept := (Option.filter_eq_some_iff.1 entered).2
              intro null
              cases null
              exact absurd rfl (of_decide_eq_true kept)
  | group role _ all _ ih =>
      intro n hn
      rcases exists_of_mem_group hn with rfl | ⟨r, hr, m, hm, same⟩
      · nofun
      · have member := everywhere.property (Schema.properties_of_group role)
          (all ▸ List.mem_map_of_mem hr)
        exact retouched same (ih r hr member m hm)
  | repeated role _ _ _ _ _ _ ih =>
      intro n hn
      rcases all_of_mem_repeatable rfl hn with rfl | rfl | ⟨r, hr, rfl | rfl | ⟨m, hm, same⟩⟩
      · nofun
      · nofun
      · obtain ⟨i, v, held⟩ := r
        nofun
      · nofun
      · obtain ⟨place, hr'⟩ := List.mem_iff_getElem?.1 hr
        have item := everywhere.item (Schema.items_of_repeated role)
        exact retouched same (ih place r hr' item m hm)

end Compile

section Form

variable {options : CompileOptions} {root : Path} {d : SchemaDocument} {h : Hint}
  {input : Option Json} {t : RepeatTable} {form : CompiledForm}

theorem admits_of_compileForm (accepted : d.Accepted) (reachable : t.Reachable)
    (hok : compileForm options root d h input t = .ok form) :
    ∀ n ∈ form.tree.nodes, Compile.Context.Admits ⟨options, root⟩ n.widget := by
  have inOrder := (compileForm_ok hok).1.inOrder reachable.inOrder
  exact (settled_of_compileForm accepted reachable hok).admits inOrder
    (List.append_nil root).symm .nil

/-- A form is read back from its stored form, with any messages on it, as it was but for values of
`null`, which read as none. There are none of these where no node of the schema has the default
`null`. -/
theorem stored_form_restored (accepted : d.Accepted) (reachable : t.Reachable) (mount : root.Fits)
    (hok : compileForm options root d h input t = .ok form) (r : Routed) :
    WidgetTree.ofJson? (r.mergeInto form.tree).toJson =
        some ((r.mergeInto form.tree).mapWidgets Widget.withoutNull) ∧
      (WidgetTree.ofJson? (r.mergeInto form.tree).toJson = some (r.mergeInto form.tree) ↔
        ∀ n ∈ form.tree.nodes, n.widget.defaultValue ≠ some .null) ∧
      (d.root.Everywhere Compile.NoNull →
        WidgetTree.ofJson? (r.mergeInto form.tree).toJson = some (r.mergeInto form.tree)) := by
  have admits := admits_of_compileForm accepted reachable hok
  have storable : ∀ n ∈ (r.mergeInto form.tree).nodes, n.widget.Storable := by
    intro n hn
    obtain ⟨m, hm, errors, same⟩ := Routed.exists_of_mem_mergeInto hn
    rw [same]
    obtain ⟨path, propPath, options, cardinality, delta⟩ := (admits m hm).storable mount
    exact ⟨path, propPath, options, cardinality, delta⟩
  have restored := WidgetTree.ofJson?_toJson storable
  have exact_iff : WidgetTree.ofJson? (r.mergeInto form.tree).toJson =
      some (r.mergeInto form.tree) ↔ ∀ n ∈ form.tree.nodes, n.widget.defaultValue ≠ some .null := by
    rw [restored, Option.some_inj, WidgetTree.mapWidgets_eq_self_iff]
    constructor
    · intro kept m hm
      obtain ⟨n, hn, errors, same⟩ := Routed.exists_mem_mergeInto r hm
      have value := Widget.withoutNull_eq_self_iff.1 (kept n hn)
      rwa [same] at value
    · intro kept n hn
      obtain ⟨m, hm, errors, same⟩ := Routed.exists_of_mem_mergeInto hn
      rw [Widget.withoutNull_eq_self_iff, same]
      exact kept m hm
  refine ⟨restored, exact_iff, fun noNull => exact_iff.2 ?_⟩
  exact (settled_of_compileForm accepted reachable hok).noNull noNull

end Form

/-- A message about the text in the second row, and one about no widget. -/
private def rowMessages : Routed :=
  ⟨[⟨[.property "form", .property "rows", .index 2, .wrapper, .index 0, .wrapper], "too short"⟩],
    ["too few rows"]⟩

private theorem compile_rows :
    (compileRows (some listsOfTexts) .twoRows).map (fun form =>
      (rowMessages.mergeInto form.tree).nodes.countP fun n => !n.widget.errors.isEmpty) =
        .ok 2 := by decide +kernel

theorem stored_form_restored_of_rows : ∃ form,
    rowsOfTexts.Accepted ∧ RepeatTable.twoRows.Reachable ∧ Path.Fits [.property "form"] ∧
      compileRows (some listsOfTexts) .twoRows = .ok form ∧
        ((rowMessages.mergeInto form.tree).nodes.countP fun n => !n.widget.errors.isEmpty) = 2 ∧
          WidgetTree.ofJson? (rowMessages.mergeInto form.tree).toJson =
            some (rowMessages.mergeInto form.tree) := by
  have mount : Path.Fits [.property "form"] := by simp [Path.Fits]
  have noNull : rowsOfTexts.root.Everywhere Compile.NoNull := by
    refine .of_object nofun rfl (List.forall_mem_singleton.2 ?_)
    exact .of_array nofun rfl (.of_array nofun rfl (.of_scalar nofun rfl))
  have messages := compile_rows
  cases hok : compileRows (some listsOfTexts) .twoRows with
  | error e => rw [hok] at messages; cases messages
  | ok form =>
      rw [hok] at messages
      exact ⟨form, rowsOfTexts_accepted, RepeatTable.twoRows_reachable, mount, rfl,
        Except.ok.inj messages, (stored_form_restored rowsOfTexts_accepted
          RepeatTable.twoRows_reachable mount hok rowMessages).2.2 noNull⟩

/-- A note that is `null` where none is entered. -/
private def nullNote : SchemaDocument :=
  { raw := .object
      [("type", .string "object"),
        ("properties", .object
          [("note", .object [("type", .string "string"), ("default", .null)])])]
    root := ⟨[.object], none, none, none, none,
      .object [("note", ⟨[.string], none, none, some .null, none, .scalar⟩)] [] none⟩ }

private def values (t : WidgetTree) : List (Option Json) :=
  t.nodes.map fun n => n.widget.defaultValue

private theorem compile_nullNote :
    (compileForm {} [] nullNote {} none .empty).map (fun form =>
      (values form.tree, (WidgetTree.ofJson? form.tree.toJson).map values)) =
        .ok ([none, some .null], some [none, none]) := by decide +kernel

/-- The value of the note is lost from the stored form. -/
theorem null_default_not_restored : ∃ form,
    nullNote.Accepted ∧ RepeatTable.empty.Reachable ∧
      compileForm {} [] nullNote {} none .empty = .ok form ∧
        WidgetTree.ofJson? form.tree.toJson ≠ some form.tree := by
  have shown := compile_nullNote
  cases hok : compileForm {} [] nullNote {} none .empty with
  | error e => rw [hok] at shown; cases shown
  | ok form =>
      rw [hok] at shown
      obtain ⟨stored, read⟩ := Prod.mk.inj (Except.ok.inj shown)
      refine ⟨form, ⟨32, nullNote.raw, by simp [nullNote], rfl⟩, .empty, rfl, fun same => ?_⟩
      rw [same, Option.map_some, stored] at read
      cases read

end FormTree
