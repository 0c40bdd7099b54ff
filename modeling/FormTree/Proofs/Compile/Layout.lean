import FormTree.Proofs.Compile.Displays
import FormTree.Proofs.Repeat.History
import FormTree.Proofs.Schema.Accepted

/-!
The tree of a form has a layout: property names are declared once, and the
indices of a repeated field are in order, so children differ in their segments.
-/

namespace FormTree

open WidgetTree (Layout)

namespace Compile

private theorem Shows.isField {s : Schema} {input : Option Json} {w : Widget}
    (h : Shows s input w) : w.kind.isStructural = false := by
  cases h with
  | constant kind _ => rw [kind]; rfl
  | entered kind _ => cases hk : w.kind <;> first | rfl | (rw [hk] at kind; cases kind)

theorem Displays.layout {c : Context} {T : RepeatTable} {name : String} {p : Path} {h : Hint}
    {input : Option Json} {s : Schema} {tree : WidgetTree}
    (hd : Displays c T name p h input s tree) (hT : T.InOrder)
    (sound : s.Everywhere Schema.Sound) : Layout p tree := by
  induction hd with
  | single _ stands shows => exact .single stands.path shows.isField
  | @group name p h input s w properties required rows role stands kind all _ ih =>
      have declared := Schema.properties_of_group role
      have same : rows.map Prod.snd = (rows.map fun r => (r.1.1, r.2)).map Prod.snd := by simp
      rw [same]
      refine .group stands.path kind ?_ ?_
      · have nodup := sound.here.names
        rw [Schema.names, declared, Option.getD_some, ← all] at nodup
        simpa [Function.comp_def] using nodup
      · intro m hm
        obtain ⟨r, hr, rfl⟩ := List.mem_map.1 hm
        exact ih r hr (sound.property declared (all ▸ List.mem_map_of_mem hr))
  | @repeated _ _ _ _ _ _ _ key rows _ role stands kind _ all wrapped _ control ih =>
      refine .repeated stands.path kind ?_ wrapped ?_ control
      · rw [all, RepeatTable.indices_eq]
        exact (hT key).nodup
      · intro r hr
        obtain ⟨n, hn⟩ := List.mem_iff_getElem?.1 hr
        exact ih n r hn (sound.item (Schema.items_of_repeated role))

end Compile

/-- A form of an accepted document and a reachable table has a layout from its mount on. -/
theorem layout_of_compileForm {options : CompileOptions} {root : Path} {d : SchemaDocument}
    {h : Hint} {input : Option Json} {t : RepeatTable} {form : CompiledForm} (accepted : d.Accepted)
    (reachable : t.Reachable) (hok : compileForm options root d h input t = .ok form) :
    Layout root form.tree := by
  obtain ⟨ensured, displays⟩ := compileForm_ok hok
  exact displays.layout (ensured.inOrder reachable.inOrder) accepted.sound

end FormTree
