import FormTree.Proofs.Compile.Stored
import FormTree.Proofs.Widget.Mapped

/-!
Compiled trees are well formed. Every widget stands one segment below the one that holds it,
under a segment of its own, and within the depth that the options allow, controls and wrappers
included. So a path leads to the widget that has it, or nowhere.
-/

namespace FormTree

/-- A tree mounted at a path, whose widgets are not deeper below it than a limit. -/
structure WidgetTree.WellFormed (root : Path) (limit : Nat) (t : WidgetTree) : Prop where
  held : ∀ n ∈ t.nodes, ∃ segments : List Segment,
    n.children.map WidgetTree.path = segments.map (n.path ++ [·]) ∧ segments.Nodup
  distinct : (t.nodes.map WidgetTree.path).Nodup
  found : ∀ n ∈ t.nodes, t.find? n.path = some n
  changed : ∀ n ∈ t.nodes, ∀ f, t.update f n.path =
    t.mapWidgets fun w => if w.path = n.path then f w else w
  absent : ∀ p, (∀ n ∈ t.nodes, n.path ≠ p) → t.find? p = none ∧ ∀ f, t.update f p = t
  propPath : ∀ n ∈ t.nodes, ∃ rel,
    n.path = root ++ rel ∧ n.widget.propPath = rel.withoutSynthetic
  depth : ∀ n ∈ t.nodes, n.widget.propPath.length ≤ limit

namespace Compile

variable {c : Context} {T : RepeatTable} {name : String} {p rel : Path} {h : Hint}
  {input : Option Json} {s : Schema} {tree : WidgetTree}

/-- Wrappers and controls do not count. -/
private theorem depth_append_le (place : p = c.root ++ rel) (q q' : Path) {limit : Nat}
    (same : q.withoutSynthetic = q'.withoutSynthetic) (le : c.depth (p ++ q') ≤ limit) :
    c.depth (p ++ q) ≤ limit := by
  rw [place, List.append_assoc, Context.depth_append, Path.withoutSynthetic_append] at le ⊢
  rwa [same]

/-- No widget of a settled tree is deeper than the options allow. -/
theorem Settled.depth_le (settled : Settled c T name p h input s tree)
    (place : p = c.root ++ rel) : ∀ n ∈ tree.nodes, c.depth n.path ≤ c.options.maxDepth := by
  induction settled generalizing rel with
  | @single _ p _ _ _ _ role built =>
      obtain ⟨-, w, rfl, stands, -⟩ := node_single (built T) role
      have path : (WidgetTree.node w []).path = p := stands.path
      exact List.forall_mem_singleton.2 (path ▸ Nat.not_lt.1 (node_depth (built T)))
  | group role depth all _ ih =>
      intro n hn
      rcases exists_of_mem_group hn with rfl | ⟨r, hr, m, hm, same⟩
      · exact Nat.not_lt.1 depth
      · rw [same.path]
        exact ih r hr (by rw [place, List.append_assoc]) m hm
  | @repeated name p h input s items key live rows role depth field known _ all below ih =>
      have here : c.depth p ≤ c.options.maxDepth := Nat.not_lt.1 depth
      have inside {r : Nat × WidgetTree} (hr : r ∈ rows) :
          c.depth (p ++ [.index r.1, .wrapper]) ≤ c.options.maxDepth ∧
            ∀ m ∈ r.2.nodes, c.depth m.path ≤ c.options.maxDepth := by
        obtain ⟨k, hk⟩ := List.mem_iff_getElem?.1 hr
        have all := ih k r hk (by rw [place, List.append_assoc])
        have path : r.2.path = p ++ [.index r.1, .wrapper] := (stands_of_node (below k r hk).node).path
        exact ⟨path ▸ all _ (WidgetTree.mem_nodes_self _), all⟩
      -- A wrapper and its remove control are as deep as the element, the add control as the field.
      intro n hn
      rcases all_of_mem_repeatable rfl hn with rfl | rfl | ⟨r, hr, rfl | rfl | ⟨m, hm, same⟩⟩
      · exact here
      · rw [← List.append_nil p] at here
        exact depth_append_le place [.control .addMore] [] rfl here
      · obtain ⟨i, w, children⟩ := r
        exact depth_append_le place [.index i] [.index i, .wrapper] rfl (inside hr).1
      · change c.depth (p ++ [.index r.1] ++ [.control .remove]) ≤ _
        rw [List.append_assoc]
        exact depth_append_le place _ [.index r.1, .wrapper] rfl (inside hr).1
      · rw [same.path]
        exact (inside hr).2 m hm

end Compile

section Form

variable {options : CompileOptions} {root : Path} {d : SchemaDocument} {h : Hint}
  {input : Option Json} {t : RepeatTable} {form : CompiledForm}

/-- Every form is well formed, within the depth that its options allow. -/
theorem wellFormed_of_compileForm (accepted : d.Accepted) (reachable : t.Reachable)
    (hok : compileForm options root d h input t = .ok form) :
    form.tree.WellFormed root options.maxDepth := by
  have placed := (layout_of_compileForm accepted reachable hok).placed
  have settled := settled_of_compileForm accepted reachable hok
  have relative : ∀ n ∈ form.tree.nodes, ∃ rel,
      n.path = root ++ rel ∧ n.widget.propPath = rel.withoutSynthetic := by
    intro n hn
    have admits := admits_of_compileForm accepted reachable hok n hn
    obtain ⟨rel, path, -⟩ := admits.place
    exact ⟨rel, path, by rw [admits.propPath, path, Compile.Context.schemaPath,
      Path.relativeTo_append]⟩
  refine ⟨fun n hn => (placed.of_mem hn).exists_segments, placed.nodup, fun n hn => placed.find? hn,
    fun n _ f => placed.update_eq f n.path, fun p absent => ⟨placed.find?_eq_none absent,
    fun f => ?_⟩, relative, fun n hn => ?_⟩
  · rw [placed.update_eq]
    exact WidgetTree.mapWidgets_eq_self fun n hn => if_neg (absent n hn)
  · obtain ⟨rel, path, propPath⟩ := relative n hn
    have deep := settled.depth_le (List.append_nil root).symm n hn
    rw [path, Compile.Context.depth_append ⟨options, root⟩] at deep
    rwa [propPath]

end Form

private theorem compile_rows_shallow :
    (compileForm { maxDepth := 3 } [.property "form"] rowsOfTexts {} (some listsOfTexts)
      .twoRows).map (fun form => (form.tree.nodes.map fun n => n.widget.propPath.length).max?) =
        .ok (some 3) := by decide +kernel

/-- The texts in the rows are as deep as the options allow. -/
theorem wellFormed_of_rows : ∃ form,
    rowsOfTexts.Accepted ∧ RepeatTable.twoRows.Reachable ∧
      compileForm { maxDepth := 3 } [.property "form"] rowsOfTexts {} (some listsOfTexts)
          .twoRows = .ok form ∧
        (form.tree.nodes.map fun n => n.widget.propPath.length).max? = some 3 ∧
          form.tree.WellFormed [.property "form"] 3 := by
  have depth := compile_rows_shallow
  cases hok : compileForm { maxDepth := 3 } [.property "form"] rowsOfTexts {} (some listsOfTexts)
      .twoRows with
  | error e => rw [hok] at depth; cases depth
  | ok form =>
      rw [hok] at depth
      exact ⟨form, rowsOfTexts_accepted, RepeatTable.twoRows_reachable, rfl, Except.ok.inj depth,
        wellFormed_of_compileForm rowsOfTexts_accepted RepeatTable.twoRows_reachable hok⟩

end FormTree
