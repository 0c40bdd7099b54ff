import FormTree.Proofs.Compile.Image
import FormTree.Proofs.Compile.Total
import FormTree.Proofs.Widget.Presentation

/-!
One form under different hints. Where no hint names a widget, two compilations go
the same way whatever the hints say about titles, texts, labels and flags. They
fail together, and their tables, trees and pointer maps differ in nothing else.
-/

namespace FormTree

namespace Hint

/-- No hint at any level chooses a widget. -/
def NamesNoWidget (h : Hint) : Prop := h.Everywhere fun h => h.widget = none

namespace NamesNoWidget

variable {h h' : Hint}

theorem child (hints : h.NamesNoWidget) (name : String) : (h.child name).NamesNoWidget :=
  Everywhere.child hints (fun _ _ => rfl) name

theorem item (hints : h.NamesNoWidget) : h.item.NamesNoWidget :=
  Everywhere.item hints fun _ _ => rfl

theorem resolve_eq (hints : h.NamesNoWidget) (hints' : h'.NamesNoWidget) (s : Schema) :
    s.resolve h = s.resolve h' := by
  have widget : h.widget = none := hints.here
  have widget' : h'.widget = none := hints'.here
  rw [Schema.resolve, Schema.resolve, widget, widget']

theorem role_eq (hints : h.NamesNoWidget) (hints' : h'.NamesNoWidget) (s : Schema) :
    s.role h = s.role h' := by
  rw [Schema.role, Schema.role, hints.resolve_eq hints' s]

end NamesNoWidget
end Hint

namespace Compile

variable {c : Context} {t : RepeatTable} {name : String} {p : Path} {h h' : Hint}
  {input : Option Json} {s : Schema}

/-- Two compilations fail alike, or they leave the same table and their results look the same. -/
inductive Alike {α γ : Type} (view : α → γ) :
    Except CompileError (α × RepeatTable) → Except CompileError (α × RepeatTable) → Prop
  | error (e : CompileError) : Alike view (.error e) (.error e)
  | ok {a a' : α} (t : RepeatTable) (same : view a = view a') :
      Alike view (.ok (a, t)) (.ok (a', t))

theorem Alike.bind {α β γ δ : Type} {view : α → γ} {view' : β → δ}
    {x x' : Except CompileError (α × RepeatTable)}
    {f f' : α × RepeatTable → Except CompileError (β × RepeatTable)} (first : Alike view x x')
    (next : ∀ a a' t, view a = view a' → Alike view' (f (a, t)) (f' (a', t))) :
    Alike view' (x >>= f) (x' >>= f') := by
  cases first with
  | error e => exact .error e
  | ok t same => exact next _ _ t same

abbrev AlikeTree : Outcome → Outcome → Prop := Alike WidgetTree.withoutPresentation

abbrev AlikeTrees : Except CompileError (List WidgetTree × RepeatTable) →
    Except CompileError (List WidgetTree × RepeatTable) → Prop :=
  Alike (List.map WidgetTree.withoutPresentation)

section Parts

/-- The labels of options are not looked at. -/
theorem keysOnly_optionsFor (h : Hint) (values : List Json) :
    ((optionsFor h values).map fun o => (o.1, "")) =
      (optionKeys values).map fun key => (key, "") := by
  rw [← keys_optionsFor h values, List.map_map]
  rfl

theorem withoutPresentation_withRequired (s : Schema) (required : Bool) (tree : WidgetTree) :
    (withRequired s required tree).withoutPresentation =
      withRequired s required tree.withoutPresentation := by
  obtain ⟨w, children⟩ := tree
  rw [withRequired, WidgetTree.withoutPresentation_node, WidgetTree.withoutPresentation_node,
    withRequired]
  split
  · rfl
  · rfl

/-- The title of an item is not looked at, nor is the one that it gives its element. -/
theorem withoutPresentation_wrapItem (c : Context) (p : Path) (title title' : String) (i : Nat)
    {tree tree' : WidgetTree} (same : tree.withoutPresentation = tree'.withoutPresentation) :
    (c.wrapItem p title i tree).withoutPresentation =
      (c.wrapItem p title' i tree').withoutPresentation := by
  obtain ⟨w, children⟩ := tree
  obtain ⟨w', children'⟩ := tree'
  simp only [WidgetTree.withoutPresentation_node, WidgetTree.node.injEq] at same
  obtain ⟨widget, below⟩ := same
  simp only [Context.wrapItem, WidgetTree.withoutPresentation_node, List.map_cons, below]
  simp only [Widget.withoutPresentation] at widget ⊢
  simp_all

theorem withoutPresentation_repeatable (c : Context) (live : LiveItems) {w w' : Widget}
    {items items' : List WidgetTree} (widget : w.withoutPresentation = w'.withoutPresentation)
    (same : items.map WidgetTree.withoutPresentation = items'.map .withoutPresentation) :
    (c.repeatable h w live items).withoutPresentation =
      (c.repeatable h' w' live items').withoutPresentation := by
  simp only [Context.repeatable, WidgetTree.withoutPresentation_node, List.map_append, same]
  simp only [Widget.withoutPresentation, flagged] at widget ⊢
  simp_all

end Parts

/-- A node compiles alike under any two hints that name no widget. -/
def PresentsAlike (c : Context) (s : Schema) : Prop :=
  ∀ ⦃h h' : Hint⦄, h.NamesNoWidget → h'.NamesNoWidget → ∀ t name p input,
    AlikeTree (node c t name p h input s) (node c t name p h' input s)

private theorem single_alike (hints : h.NamesNoWidget) (hints' : h'.NamesNoWidget)
    (hd : ¬c.options.maxDepth < c.depth p) (hr : s.role h = .single) :
    AlikeTree (node c t name p h input s) (node c t name p h' input s) := by
  have leaf {w w' : Widget} (same : w.withoutPresentation = w'.withoutPresentation) :
      AlikeTree (.ok (leaf h w, t)) (.ok (leaf h' w', t)) :=
    .ok t (congrArg (fun w => WidgetTree.node w []) same)
  rw [node_eq hd, node_eq hd, ← hints.resolve_eq hints' s]
  rw [Schema.role] at hr
  dsimp only
  split
  · exact .ok t rfl
  · exact leaf (by simp only [Widget.withoutPresentation, keysOnly_optionsFor]; rfl)
  · next items hs hres =>
    rw [hs, hres] at hr
    dsimp only at hr
    split at hr
    · next henum =>
      obtain ⟨values, hvalues⟩ := Option.isSome_iff_exists.1 henum
      rw [Context.repeated, Context.repeated, hvalues]
      exact leaf (by simp only [Widget.withoutPresentation, keysOnly_optionsFor]; rfl)
    · cases hr
  · next items _ _ _ =>
    refine leaf ?_
    cases items.enumValues? with
    | none => rfl
    | some values =>
        simp only [Widget.withoutPresentation, Option.map_some, Option.getD_some,
          keysOnly_optionsFor]
        rfl
  · next hs hres =>
    rw [hs, hres] at hr
    cases hr
  · exact .error _
  · exact .error _
  · exact .error _
  · exact .error _
  · exact leaf rfl

private theorem members_alike {properties : List (String × Schema)}
    (below : ∀ m ∈ properties, PresentsAlike c m.2) (hints : h.NamesNoWidget)
    (hints' : h'.NamesNoWidget) (required : List String) :
    AlikeTrees (members c t p h input required properties)
      (members c t p h' input required properties) := by
  induction properties generalizing t with
  | nil => exact .ok t rfl
  | cons m properties ih =>
      obtain ⟨name, s⟩ := m
      rw [List.forall_mem_cons] at below
      rw [members, members]
      refine .bind (below.1 (hints.child name) (hints'.child name) t _ _ _) ?_
      intro child child' u sameChild
      refine .bind (ih below.2) ?_
      intro children children' v sameChildren
      refine .ok v ?_
      rw [List.map_cons, List.map_cons, withoutPresentation_withRequired,
        withoutPresentation_withRequired, sameChild, sameChildren]

private theorem items_alike {items : Schema} (below : PresentsAlike c items)
    (hints : h.NamesNoWidget) (hints' : h'.NamesNoWidget) (title title' : String) (place : Nat)
    (indices : List Nat) :
    AlikeTrees (forItems (c.item p title h input items) place indices t)
      (forItems (c.item p title' h' input items) place indices t) := by
  induction indices generalizing t place with
  | nil => exact .ok t rfl
  | cons i indices ih =>
      have first : AlikeTree (c.item p title h input items place i t)
          (c.item p title' h' input items place i t) := by
        refine .bind (below hints.item hints'.item t _ _ _) fun tree tree' u same => .ok u ?_
        exact withoutPresentation_wrapItem c p title title' i same
      rw [forItems, forItems]
      refine .bind first fun item item' u sameItem => .bind (ih (place + 1)) ?_
      intro children children' v sameChildren
      refine .ok v ?_
      rw [List.map_cons, List.map_cons, sameItem, sameChildren]

private theorem group_alike {properties : List (String × Schema)} {required : List String}
    (below : ∀ m ∈ properties, PresentsAlike c m.2) (hints : h.NamesNoWidget)
    (hints' : h'.NamesNoWidget) (hd : ¬c.options.maxDepth < c.depth p)
    (hr : s.role h = .group properties required) :
    AlikeTree (node c t name p h input s) (node c t name p h' input s) := by
  rw [node_group_eq hd hr, node_group_eq hd (hints.role_eq hints' s ▸ hr)]
  refine .bind (members_alike below hints hints' required) fun children children' u same => .ok u ?_
  rw [WidgetTree.withoutPresentation_node, WidgetTree.withoutPresentation_node, same]
  rfl

private theorem repeated_alike {items : Schema} (below : PresentsAlike c items)
    (hints : h.NamesNoWidget) (hints' : h'.NamesNoWidget) (hd : ¬c.options.maxDepth < c.depth p)
    (hr : s.role h = .repeated items) :
    AlikeTree (node c t name p h input s) (node c t name p h' input s) := by
  have hr' : s.role h' = .repeated items := hints.role_eq hints' s ▸ hr
  cases field : FieldKey.ofPath? (c.schemaPath p) with
  | none =>
      rw [node_repeated_of_none hd hr field, node_repeated_of_none hd hr' field]
      exact .error _
  | some key =>
      rw [node_repeated_eq hd hr field, node_repeated_eq hd hr' field]
      refine .bind (items_alike below hints hints' _ _ 0 _) ?_
      intro children children' u same
      refine .ok u ?_
      exact withoutPresentation_repeatable c _ rfl same

theorem presentsAlike (c : Context) (s : Schema) : PresentsAlike c s := by
  refine Schema.induct ?_ s
  intro s properties items _ h h' hints hints' t name p input
  by_cases hd : c.options.maxDepth < c.depth p
  · rw [node_of_deep hd, node_of_deep hd]
    exact .error _
  · cases hr : s.role h with
    | single => exact single_alike hints hints' hd hr
    | group ps required =>
        exact group_alike (properties ps (Schema.properties_of_group hr)) hints hints' hd hr
    | repeated i =>
        exact repeated_alike (items i (Schema.items_of_repeated hr)) hints hints' hd hr

end Compile

/-- Hints that name no widget have no part in whether a form compiles, what is recorded in its
table, what it is made of and where its pointers lead. -/
theorem hints_change_presentation_only {h h' : Hint} (hints : h.NamesNoWidget)
    (hints' : h'.NamesNoWidget) (options : CompileOptions) (root : Path) (d : SchemaDocument)
    (input : Option Json) (t : RepeatTable) :
    (∃ e, compileForm options root d h input t = .error e ∧
        compileForm options root d h' input t = .error e) ∨
      ∃ form form', compileForm options root d h input t = .ok form ∧
        compileForm options root d h' input t = .ok form' ∧ form'.table = form.table ∧
          form'.tree.withoutPresentation = form.tree.withoutPresentation ∧
            PointerMap.ofTree form'.tree root = PointerMap.ofTree form.tree root := by
  have alike := Compile.presentsAlike ⟨options, root⟩ d.root hints hints' t
    ((root.getLast?.map Segment.key).getD "") root input
  generalize hx : Compile.node _ _ _ _ h _ _ = x, hx' : Compile.node _ _ _ _ h' _ _ = x' at alike
  cases alike with
  | error e => exact .inl ⟨e, bind_eq_error hx _, bind_eq_error hx' _⟩
  | @ok tree tree' table same =>
      refine .inr ⟨⟨tree, table⟩, ⟨tree', table⟩, bind_eq_ok.2 ⟨_, hx, rfl⟩,
        bind_eq_ok.2 ⟨_, hx', rfl⟩, rfl, same.symm, ?_⟩
      rw [← PointerMap.ofTree_withoutPresentation, ← same, PointerMap.ofTree_withoutPresentation]

/-- Rows under a title of their own, with a hint for the texts in them. -/
private def titledRows : Hint :=
  let texts : Hint := { placeholder := some "text" }
  let row : Hint := { help := some "one row", children := [("items", texts)] }
  { children := [("rows", { title := some "Table", children := [("items", row)] })] }

/-- Rows that cannot be seen, which their items inherit. -/
private def hiddenRows : Hint :=
  { children := [("rows", { visible := some false })] }

private theorem titledRows_namesNoWidget : titledRows.NamesNoWidget := by
  refine .node rfl (List.forall_mem_singleton.2 (.node rfl (List.forall_mem_singleton.2 ?_)))
  exact .node rfl (List.forall_mem_singleton.2 (.node rfl nofun))

private theorem hiddenRows_namesNoWidget : hiddenRows.NamesNoWidget :=
  .node rfl (List.forall_mem_singleton.2 (.node rfl nofun))

private def presentRows (h : Hint) : Except CompileError CompiledForm :=
  compileForm {} [.property "form"] rowsOfTexts h (some listsOfTexts) .twoRows

private def hidesSome (form : CompiledForm) : Bool :=
  form.tree.nodes.any fun n => !n.widget.visible

private theorem presentRows_differ : (presentRows titledRows).map hidesSome = .ok false ∧
    (presentRows hiddenRows).map hidesSome = .ok true := by decide +kernel

/-- The rows look different, and are the same. -/
theorem hints_change_presentation_only_in_rows : ∃ form form',
    titledRows.NamesNoWidget ∧ hiddenRows.NamesNoWidget ∧ presentRows titledRows = .ok form ∧
      presentRows hiddenRows = .ok form' ∧ form'.tree ≠ form.tree ∧ form'.table = form.table ∧
        form'.tree.withoutPresentation = form.tree.withoutPresentation ∧
          PointerMap.ofTree form'.tree [.property "form"] =
            PointerMap.ofTree form.tree [.property "form"] := by
  obtain ⟨shown, hidden⟩ := presentRows_differ
  rcases hints_change_presentation_only titledRows_namesNoWidget hiddenRows_namesNoWidget {}
      [.property "form"] rowsOfTexts (some listsOfTexts) .twoRows with
    ⟨e, failed, -⟩ | ⟨form, form', hok, hok', table, tree, pointers⟩
  · rw [presentRows, failed] at shown
    cases shown
  · rw [presentRows, hok] at shown
    rw [presentRows, hok'] at hidden
    have differ : form'.tree ≠ form.tree := by
      intro same
      have both := (Except.ok.inj hidden).symm.trans
        ((congrArg (fun tree : WidgetTree => tree.nodes.any fun n => !n.widget.visible) same).trans
          (Except.ok.inj shown))
      cases both
    exact ⟨form, form', titledRows_namesNoWidget, hiddenRows_namesNoWidget, hok, hok', differ,
      table, tree, pointers⟩

end FormTree
