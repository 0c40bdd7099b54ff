import FormTree.Proofs.Compile.Items
import FormTree.Proofs.Compile.Rebuild
import FormTree.Proofs.PointerMap.Mounted
import FormTree.Proofs.Repeat.Mounted

/-!
One form compiled at two places, below a mount and where forms begin. Both
compilations go the same way, so they fail together, and their trees, tables and
pointer maps differ in the path of the mount alone.
-/

namespace FormTree

open WidgetTree (IsControl Retouched)

namespace WidgetTree

/-- The keys of the repeated fields among some nodes. -/
def keysIn (nodes : List WidgetTree) : List FieldKey :=
  (nodes.filter isRepeated).filterMap fun n => FieldKey.ofPath? n.widget.propPath

theorem keysIn_append (nodes nodes' : List WidgetTree) :
    keysIn (nodes ++ nodes') = keysIn nodes ++ keysIn nodes' := by
  rw [keysIn, List.filter_append, List.filterMap_append]
  rfl

theorem mem_keysIn_iff {nodes : List WidgetTree} {k : FieldKey} :
    k ∈ keysIn nodes ↔ ∃ n ∈ nodes, n.widget.kind = .repeatable ∧
      FieldKey.ofPath? n.widget.propPath = some k := by
  simp only [keysIn, List.mem_filterMap, List.mem_filter, isRepeated_iff, and_assoc]

theorem Retouched.keysIn {t t' : WidgetTree} (same : Retouched t t') :
    keysIn t'.nodes = keysIn t.nodes := by
  have root : t'.isRepeated = t.isRepeated := by rw [isRepeated, same.kind, isRepeated]
  rw [nodes_eq t', nodes_eq t, same.children, WidgetTree.keysIn, WidgetTree.keysIn,
    List.filter_cons, List.filter_cons, root]
  split
  · rw [List.filterMap_cons, List.filterMap_cons, same.propPath]
  · rfl

end WidgetTree

namespace Compile

open WidgetTree (keysIn keysIn_append)

/-- Two compilations, the first of them for a form at the root, after some fields were met. They
fail both, or the first has the result of the second, mounted. -/
inductive Mounts (root : Path) {α : Type} (mount : α → α) (nodes : α → List WidgetTree)
    (t' t : RepeatTable) (met : List FieldKey) :
    Except CompileError (α × RepeatTable) → Except CompileError (α × RepeatTable) → Prop
  | error (e' e : CompileError) : Mounts root mount nodes t' t met (.error e') (.error e)
  | ok (a : α) (visits : List Visit) (keys : met ++ visits.map Visit.key = keysIn (nodes a)) :
      Mounts root mount nodes t' t met
        (.ok (mount a, t'.visitAll (visits.map (Visit.mounted root))))
        (.ok (a, t.visitAll visits))

/-- The place where forms begin. -/
def Context.unmounted (c : Context) : Context := { c with root := [] }

abbrev MountsTree (c : Context) (mount : WidgetTree → WidgetTree) (t' t : RepeatTable) :
    Outcome → Outcome → Prop :=
  Mounts c.root mount WidgetTree.nodes t' t []

abbrev MountsTrees (c : Context) (t' t : RepeatTable) :
    Except CompileError (List WidgetTree × RepeatTable) →
      Except CompileError (List WidgetTree × RepeatTable) → Prop :=
  Mounts c.root (List.map (WidgetTree.mounted c.root)) (List.flatMap WidgetTree.nodes) t' t []

section Sequence

variable {α β : Type} {root : Path} {mount : α → α} {mount' : β → β}
  {nodes : α → List WidgetTree} {nodes' : β → List WidgetTree} {t t' : RepeatTable}
  {met : List FieldKey}

theorem Mounts.bind {x x' : Except CompileError (α × RepeatTable)}
    {f f' : α × RepeatTable → Except CompileError (β × RepeatTable)} (alike : t'.Alike t)
    (first : Mounts root mount nodes t' t [] x' x)
    (next : ∀ a u' u, RepeatTable.Alike u' u →
      Mounts root mount' nodes' u' u (met ++ keysIn (nodes a)) (f' (mount a, u')) (f (a, u))) :
    Mounts root mount' nodes' t' t met (x' >>= f') (x >>= f) := by
  cases first with
  | error => exact .error _ _
  | ok a visits keys =>
      have second := next a _ _ (alike.visitAll root visits)
      change Mounts root mount' nodes' t' t met (f' _) (f _)
      generalize f' _ = y', f _ = y at second ⊢
      cases second with
      | error => exact .error _ _
      | ok b visits' keys' =>
          rw [← RepeatTable.visitAll_append, ← RepeatTable.visitAll_append, ← List.map_append]
          refine .ok b (visits ++ visits') ?_
          rw [← keys', ← keys, List.map_append, List.nil_append, List.append_assoc]

/-- A field met before the others. -/
theorem Mounts.visit {x x' : Except CompileError (α × RepeatTable)} {v : Visit}
    (rest : Mounts root mount nodes (t'.ensure v.key v.count (root ++ v.location))
      (t.ensure v.key v.count v.location) (met ++ [v.key]) x' x) :
    Mounts root mount nodes t' t met x' x := by
  cases rest with
  | error => exact .error _ _
  | ok a visits keys =>
      rw [List.append_assoc] at keys
      exact .ok a (v :: visits) keys

end Sequence

/-- A result without another visit. -/
theorem Mounts.pure {α : Type} {root : Path} {mount : α → α} {nodes : α → List WidgetTree}
    {t' t : RepeatTable} {met : List FieldKey} (a : α) (keys : met = keysIn (nodes a)) :
    Mounts root mount nodes t' t met (.ok (mount a, t')) (.ok (a, t)) :=
  .ok a [] (by rwa [List.map_nil, List.append_nil])

variable {c : Context} {t t' : RepeatTable} {name name' : String} {rel p : Path} {h : Hint}
  {input : Option Json} {s : Schema} {mount : WidgetTree → WidgetTree}

section Places

theorem Context.schemaPath_append (c : Context) (rel : Path) :
    c.schemaPath (c.root ++ rel) = c.unmounted.schemaPath rel :=
  (Path.relativeTo_append c.root rel).trans (Path.relativeTo_append [] rel).symm

theorem Context.depth_unmounted (c : Context) (rel : Path) :
    c.depth (c.root ++ rel) = c.unmounted.depth rel :=
  (c.depth_append rel).trans (c.unmounted.depth_append rel).symm

theorem Context.not_deep_append (hd : ¬c.unmounted.options.maxDepth < c.unmounted.depth rel) :
    ¬c.options.maxDepth < c.depth (c.root ++ rel) := by
  rw [Context.depth_unmounted]
  exact hd

/-- The title of a node, which falls back on its name. -/
def titleOf (h : Hint) (s : Schema) (name : String) : String :=
  (h.title <|> s.title).getD (Label.humanize name)

theorem Context.scaffold_append (c : Context) (s : Schema) (name' name : String) (rel : Path)
    (h : Hint) (input : Option Json) :
    c.scaffold s name' (c.root ++ rel) h input =
      { c.unmounted.scaffold s name rel h input with
        name := name', path := c.root ++ rel, title := titleOf h s name' } := by
  rw [Context.scaffold, Context.schemaPath_append]
  rfl

theorem withRequired_mounted (root : Path) (s : Schema) (required : Bool) (tree : WidgetTree) :
    withRequired s required (tree.mounted root) = (withRequired s required tree).mounted root := by
  cases tree
  rw [WidgetTree.mounted_node, withRequired, withRequired, WidgetTree.mounted_node]
  split <;> rfl

theorem Context.addControl_append (c : Context) (p : Path) :
    c.addControl (c.root ++ p) = (c.unmounted.addControl p).mounted c.root := by
  rw [Context.addControl, Context.addControl, WidgetTree.mounted_node, List.append_assoc,
    Context.schemaPath_append]
  rfl

theorem Context.removeControl_append (c : Context) (p : Path) (i : Nat) :
    c.removeControl (c.root ++ p) i = (c.unmounted.removeControl p i).mounted c.root := by
  rw [Context.removeControl, Context.removeControl, WidgetTree.mounted_node, List.append_assoc,
    Context.schemaPath_append]
  rfl

theorem Context.wrapItem_append (c : Context) (p : Path) (title : String) (i : Nat)
    (tree : WidgetTree) :
    c.wrapItem (c.root ++ p) title i (tree.mounted c.root) =
      (c.unmounted.wrapItem p title i tree).mounted c.root := by
  cases tree
  simp only [WidgetTree.mounted_node, Context.wrapItem, List.append_assoc, List.map_cons,
    List.map_nil, Context.schemaPath_append, Context.removeControl_append]
  rfl

end Places

/-- The trees of a node are mounted, each under a name of its own and the title for it. -/
def Entitles (c : Context) (mount : WidgetTree → WidgetTree) (s : Schema) (h : Hint)
    (name' name : String) (rel : Path) : Prop :=
  ∀ w children, w.name = name → w.path = rel → w.title = titleOf h s name →
    mount (.node w children) =
      .node { w with name := name', path := c.root ++ rel, title := titleOf h s name' }
        (children.map (WidgetTree.mounted c.root))

theorem entitles_mounted (c : Context) (s : Schema) (h : Hint) (name : String) (rel : Path) :
    Entitles c (WidgetTree.mounted c.root) s h name name rel := by
  rintro w children rfl rfl title
  rw [WidgetTree.mounted_node, ← title]
  rfl

theorem entitles_entitled (c : Context) (s : Schema) (h : Hint) (name' name : String) (rel : Path) :
    Entitles c (fun tree => (tree.mounted c.root).entitled name' (titleOf h s name')) s h name' name
      rel := by
  rintro w children - rfl -
  dsimp only
  rw [WidgetTree.mounted_node]
  rfl

/-- A widget that holds no others is the same at both places, but for its name, path and title. -/
private theorem node_single_append (c : Context) (name' name : String) (input : Option Json)
    (hd : ¬c.unmounted.options.maxDepth < c.unmounted.depth rel)
    (hr : s.role h = .single) :
    (∃ e' e, ∀ t, node c t name' (c.root ++ rel) h input s = .error e' ∧
        node c.unmounted t name rel h input s = .error e) ∨
      ∃ w : Widget, (w.name = name ∧ w.path = rel ∧ w.title = titleOf h s name) ∧
        (∀ t, node c.unmounted t name rel h input s = .ok (.node w [], t)) ∧
          ∀ t, node c t name' (c.root ++ rel) h input s = .ok (.node
            { w with name := name', path := c.root ++ rel, title := titleOf h s name' } [], t) := by
  have hd' := Context.not_deep_append hd
  simp only [node_eq hd, node_eq hd', c.scaffold_append s name' name]
  rw [Schema.role] at hr
  generalize s.resolve h = r at hr ⊢
  generalize s.shape = shape at hr ⊢
  cases shape with
  | const _ | enum _ => exact .inr ⟨_, ⟨rfl, rfl, rfl⟩, fun _ => rfl, fun _ => rfl⟩
  | array items =>
      cases r with
      | unresolved | widget _ => exact .inr ⟨_, ⟨rfl, rfl, rfl⟩, fun _ => rfl, fun _ => rfl⟩
      | type u =>
        cases u with
        | object => exact .inl ⟨_, _, fun _ => ⟨rfl, rfl⟩⟩
        | array =>
          cases henum : items.enumValues? with
          | none => simp [henum] at hr
          | some values =>
            simp only [Context.repeated, henum]
            exact .inr ⟨_, ⟨rfl, rfl, rfl⟩, fun _ => rfl, fun _ => rfl⟩
        | _ => exact .inr ⟨_, ⟨rfl, rfl, rfl⟩, fun _ => rfl, fun _ => rfl⟩
  | object _ _ _ =>
      cases r with
      | unresolved | widget _ => exact .inr ⟨_, ⟨rfl, rfl, rfl⟩, fun _ => rfl, fun _ => rfl⟩
      | type u =>
        cases u with
        | array => exact .inl ⟨_, _, fun _ => ⟨rfl, rfl⟩⟩
        | object => cases hr
        | _ => exact .inr ⟨_, ⟨rfl, rfl, rfl⟩, fun _ => rfl, fun _ => rfl⟩
  | scalar =>
      cases r with
      | unresolved | widget _ => exact .inr ⟨_, ⟨rfl, rfl, rfl⟩, fun _ => rfl, fun _ => rfl⟩
      | type u =>
        cases u with
        | array | object => exact .inl ⟨_, _, fun _ => ⟨rfl, rfl⟩⟩
        | _ => exact .inr ⟨_, ⟨rfl, rfl, rfl⟩, fun _ => rfl, fun _ => rfl⟩

private theorem single_mounts (entitles : Entitles c mount s h name' name rel)
    (hd : ¬c.unmounted.options.maxDepth < c.unmounted.depth rel) (hr : s.role h = .single) :
    MountsTree c mount t' t (node c t' name' (c.root ++ rel) h input s)
      (node c.unmounted t name rel h input s) := by
  rcases node_single_append c name' name input hd hr with
    ⟨e', e, errors⟩ | ⟨w, ⟨hname, path, title⟩, made, made'⟩
  · rw [(errors t').1, (errors t).2]
    exact .error e' e
  · have alone : keysIn (WidgetTree.node w []).nodes = [] := by
      rw [keysIn, List.filter_eq_nil_iff.2, List.filterMap_nil]
      intro n hn
      rw [WidgetTree.isRepeated_iff]
      exact not_repeatable_of_single (made t) hr hn
    rw [made, made', ← List.map_nil, ← entitles w [] hname path title]
    exact .pure _ alone.symm

/-- A node compiles alike at both places, under the same name. -/
def MountsAt (c : Context) (s : Schema) : Prop :=
  ∀ ⦃t' t⦄, RepeatTable.Alike t' t → ∀ name rel h input,
    MountsTree c (WidgetTree.mounted c.root) t' t (node c t' name (c.root ++ rel) h input s)
      (node c.unmounted t name rel h input s)

private theorem members_mounts {properties : List (String × Schema)}
    (below : ∀ m ∈ properties, MountsAt c m.2) (required : List String) (alike : t'.Alike t) :
    MountsTrees c t' t (members c t' (c.root ++ rel) h input required properties)
      (members c.unmounted t rel h input required properties) := by
  induction properties generalizing t t' with
  | nil =>
      rw [members, members]
      exact .pure [] rfl
  | cons m properties ih =>
      obtain ⟨name, s⟩ := m
      rw [List.forall_mem_cons] at below
      have first := below.1 alike name (rel ++ [.property name]) (h.child name)
        (input.bind (·.member? name))
      rw [← List.append_assoc] at first
      rw [members, members]
      refine .bind alike first fun child u' u alike' => .bind alike' (ih below.2 alike') ?_
      intro children v' v _
      change Mounts _ _ _ _ _ _ (.ok (withRequired s _ (child.mounted _) :: _, v')) (.ok (_, v))
      rw [withRequired_mounted]
      refine .pure (withRequired s (required.contains name) child :: children) ?_
      have retouched := retouched_heldProperty required ((name, s), child)
      rw [List.flatMap_cons, keysIn_append, ← retouched.keysIn]
      rfl

private theorem keysIn_wrapItem (c : Context) (p : Path) (title : String) (i : Nat)
    (tree : WidgetTree) : keysIn (c.wrapItem p title i tree).nodes = keysIn tree.nodes := by
  obtain ⟨element, retouched, -, children⟩ := wrapItem_eq c p title i tree
  have same := nodes_wrapItem children
  rw [← retouched.keysIn, keysIn, same]
  rfl

private theorem items_mounts {items : Schema} (below : MountsAt c items) (title : String)
    (alike : t'.Alike t) (place : Nat) (indices : List Nat) :
    MountsTrees c t' t
      (forItems (c.item (c.root ++ rel) title h input items) place indices t')
      (forItems (c.unmounted.item rel title h input items) place indices t) := by
  induction indices generalizing t t' place with
  | nil =>
      rw [forItems, forItems]
      exact .pure [] rfl
  | cons i indices ih =>
      have element := below alike (toString i) (rel ++ [.index i, .wrapper]) h.item
        (itemInput input place i)
      rw [← List.append_assoc] at element
      have first : MountsTree c (WidgetTree.mounted c.root) t' t
          (c.item (c.root ++ rel) title h input items place i t')
          (c.unmounted.item rel title h input items place i t) := by
        refine .bind alike element fun tree u' u _ => ?_
        change Mounts _ _ _ _ _ _ (.ok (c.wrapItem _ _ _ (tree.mounted c.root), u')) (.ok (_, u))
        rw [Context.wrapItem_append]
        exact .pure _ (keysIn_wrapItem ..).symm
      rw [forItems, forItems]
      refine .bind alike first fun item u' u alike' => .bind alike' (ih alike' (place + 1)) ?_
      intro children v' v _
      refine .pure (item :: children) ?_
      rw [List.flatMap_cons, keysIn_append]
      rfl

private theorem group_mounts {properties : List (String × Schema)} {required : List String}
    (below : ∀ m ∈ properties, MountsAt c m.2) (entitles : Entitles c mount s h name' name rel)
    (hd : ¬c.unmounted.options.maxDepth < c.unmounted.depth rel)
    (hr : s.role h = .group properties required) (alike : t'.Alike t) :
    MountsTree c mount t' t (node c t' name' (c.root ++ rel) h input s)
      (node c.unmounted t name rel h input s) := by
  have hd' := Context.not_deep_append hd
  rw [node_group_eq hd hr, node_group_eq hd' hr]
  refine .bind alike (members_mounts below required alike) fun children u' u _ => ?_
  have whole := entitles (c.unmounted.groupWidget s name rel h) children rfl rfl rfl
  have widget : c.groupWidget s name' (c.root ++ rel) h =
      { c.unmounted.groupWidget s name rel h with
        name := name', path := c.root ++ rel, title := titleOf h s name' } := by
    rw [Context.groupWidget, c.scaffold_append s name' name]
    rfl
  rw [← widget] at whole
  change Mounts _ _ _ _ _ _ (.ok (WidgetTree.node _ (children.map _), u')) (.ok (_, u))
  rw [← whole]
  refine .pure _ ?_
  rw [WidgetTree.nodes_node, keysIn, keysIn, List.filter_cons_of_neg]
  · rfl
  · simp [WidgetTree.isRepeated, WidgetTree.widget, Context.groupWidget, flagged]

private theorem repeatable_append (entitles : Entitles c mount s h name' name rel)
    {live live' : LiveItems} (same : live'.indices = live.indices) (items : List WidgetTree) :
    mount (c.unmounted.repeatable h (c.unmounted.scaffold s name rel h none) live items) =
      c.repeatable h (c.scaffold s name' (c.root ++ rel) h none) live'
        (items.map (WidgetTree.mounted c.root)) := by
  rw [Context.repeatable, entitles _ _ rfl rfl rfl, c.scaffold_append s name' name,
    repeatable_congr same, Context.repeatable, List.map_append, List.map_singleton]
  exact congrArg (fun add => WidgetTree.node _ (_ ++ [add])) (c.addControl_append rel).symm

private theorem keysIn_repeatable {key : FieldKey} {w : Widget} (live : LiveItems)
    (items : List WidgetTree) (field : FieldKey.ofPath? w.propPath = some key) :
    keysIn (c.repeatable h w live items).nodes =
      key :: keysIn (items.flatMap WidgetTree.nodes) := by
  have control : keysIn (c.addControl w.path).nodes = [] := rfl
  have below : keysIn ((items ++ [c.addControl w.path]).flatMap WidgetTree.nodes) =
      keysIn (items.flatMap WidgetTree.nodes) := by
    rw [List.flatMap_append, List.flatMap_singleton, keysIn_append, control, List.append_nil]
  rw [Context.repeatable, WidgetTree.nodes_node, ← below, keysIn, List.filter_cons_of_pos rfl]
  exact List.filterMap_cons_some field

/-- The items take their titles from the field, so the field has to have the same name at both
places, if it is there at all. -/
private theorem repeated_mounts {items : Schema} (below : MountsAt c items)
    (entitles : Entitles c mount s h name' name rel)
    (same : name' = name ∨ FieldKey.ofPath? (c.unmounted.schemaPath rel) = none)
    (hd : ¬c.unmounted.options.maxDepth < c.unmounted.depth rel) (hr : s.role h = .repeated items)
    (alike : t'.Alike t) :
    MountsTree c mount t' t (node c t' name' (c.root ++ rel) h input s)
      (node c.unmounted t name rel h input s) := by
  have hd' := Context.not_deep_append hd
  cases field : FieldKey.ofPath? (c.unmounted.schemaPath rel) with
  | none =>
      have field' := field
      rw [← Context.schemaPath_append] at field'
      rw [node_repeated_of_none hd hr field, node_repeated_of_none hd' hr field']
      exact .error _ _
  | some key =>
      obtain rfl : name' = name := same.resolve_right (by simp [field])
      have field' := field
      rw [← Context.schemaPath_append] at field'
      rw [node_repeated_eq hd hr field, node_repeated_eq hd' hr field']
      have indices : (t'.ensured key (itemCount input) (c.root ++ rel)).indices =
          (t.ensured key (itemCount input) rel).indices := by
        rw [alike.ensured key (itemCount input) rel]
      have alike' := alike.ensure key (itemCount input) rel (c.root ++ rel)
      have elements (live : List Nat) : MountsTrees c _ _
          (forItems (c.item (c.root ++ rel) (titleOf h s name') h input items) 0 live _)
          (forItems (c.unmounted.item rel (titleOf h s name') h input items) 0 live _) :=
        items_mounts below (titleOf h s name') alike' 0 live
      dsimp only
      rw [indices]
      refine Mounts.visit (v := ⟨key, itemCount input, rel⟩) (.bind alike' (elements _) ?_)
      intro children u' u _
      change Mounts _ _ _ _ _ _ (.ok (c.repeatable _ _ _ (children.map _), u')) (.ok (_, u))
      rw [← repeatable_append entitles indices]
      exact .pure _ (keysIn_repeatable _ children field).symm

/-- A step of both compilations. Names differ at the mount itself, where no field is repeated. -/
private theorem node_mounts
    (properties : ∀ ps, s.properties? = some ps → ∀ m ∈ ps, MountsAt c m.2)
    (items : ∀ i, s.items? = some i → MountsAt c i) (entitles : Entitles c mount s h name' name rel)
    (same : name' = name ∨ FieldKey.ofPath? (c.unmounted.schemaPath rel) = none)
    (alike : t'.Alike t) :
    MountsTree c mount t' t (node c t' name' (c.root ++ rel) h input s)
      (node c.unmounted t name rel h input s) := by
  by_cases hd : c.unmounted.options.maxDepth < c.unmounted.depth rel
  · have hd' : c.options.maxDepth < c.depth (c.root ++ rel) := by
      rw [Context.depth_unmounted]
      exact hd
    rw [node_of_deep hd, node_of_deep hd']
    exact .error _ _
  · cases hr : s.role h with
    | single => exact single_mounts entitles hd hr
    | group ps required =>
        exact group_mounts (properties ps (Schema.properties_of_group hr)) entitles hd hr alike
    | repeated i =>
        exact repeated_mounts (items i (Schema.items_of_repeated hr)) entitles same hd hr alike

theorem mountsAt (c : Context) (s : Schema) : MountsAt c s := by
  refine Schema.induct ?_ s
  intro s properties items _ t' t alike name rel h input
  exact node_mounts properties items (entitles_mounted c s h name rel) (.inl rfl) alike

/-- Every widget of a compiled tree but its root is below the place where forms begin. -/
theorem Displays.inner {c : Context} {T : RepeatTable} {tree : WidgetTree}
    (displays : Displays c T name p h input s tree) : tree.Inner := by
  induction displays with
  | single => exact .of_children fun _ held => by cases held
  | group _ _ _ _ below ih =>
      refine .of_children fun child held => ?_
      obtain ⟨r, hr, rfl⟩ := List.mem_map.1 held
      have path : r.2.path = _ := (below r hr).stands.path
      exact ⟨by simp [path], ih r hr⟩
  | @repeated _ p _ _ _ _ _ _ rows add _ _ _ _ _ wrapped below control ih =>
      have leaf {q : Path} {kind : Control} {t : WidgetTree} (control : IsControl q kind t) :
          t.path ≠ [] ∧ t.Inner := by
        refine ⟨by simp [control.path], .of_children ?_⟩
        rw [control.leaf]
        exact fun _ held => by cases held
      refine .of_children fun child held => ?_
      rcases List.mem_append.1 held with held | held
      · obtain ⟨r, hr, rfl⟩ := List.mem_map.1 held
        obtain ⟨place, hplace⟩ := List.mem_iff_getElem?.1 hr
        have element : r.element.path = _ := (below place r hplace).stands.path
        obtain ⟨remove, isRemove, children⟩ := (wrapped r hr).children
        refine ⟨by simp [(wrapped r hr).path], .of_children ?_⟩
        rw [children]
        refine List.forall_mem_cons.2 ⟨⟨by simp [element], ih place r hplace⟩, ?_⟩
        exact List.forall_mem_singleton.2 (leaf isRemove)
      · obtain rfl := List.mem_singleton.1 held
        exact leaf control

end Compile

namespace CompiledForm

/-- The form is another one, mounted at a root. The fields that the compilation visited are below
the root, and the root of the tree has a name and a title of its own. -/
structure Mounted (root : Path) (name title : String) (form' form : CompiledForm) : Prop where
  tree : form'.tree = (form.tree.mounted root).entitled name title
  propPaths : (form'.tree.nodes.map fun n => n.widget.propPath) =
    form.tree.nodes.map fun n => n.widget.propPath
  visited : ∀ k, form.Uses k → ∃ s, form.table.find? k = some s ∧
    form'.table.find? k = some (s.mounted root)
  others : ∀ k, ¬form.Uses k → form'.table.find? k = form.table.find? k
  rebuild : form'.table.rebuild = form.table.rebuild
  pointers : PointerMap.Mounted root (PointerMap.ofTree form'.tree root)
    (PointerMap.ofTree form.tree [])

end CompiledForm

/-- The name of a form is the last segment of its mount. -/
def Path.formName (root : Path) : String := (root.getLast?.map Segment.key).getD ""

/-- The mount changes the paths of a form, and the name of its root with the title made from it. -/
theorem mount_changes_paths_only (options : CompileOptions) (root : Path) (d : SchemaDocument)
    (h : Hint) (input : Option Json) (t : RepeatTable) :
    (∃ e' e, compileForm options root d h input t = .error e' ∧
        compileForm options [] d h input t = .error e) ∨
      ∃ form' form, compileForm options root d h input t = .ok form' ∧
        compileForm options [] d h input t = .ok form ∧
          CompiledForm.Mounted root root.formName (Compile.titleOf h d.root root.formName) form'
            form := by
  let c : Compile.Context := ⟨options, root⟩
  have step : Compile.MountsTree c _ t t
      (Compile.node c t root.formName (root ++ []) h input d.root)
      (Compile.node c.unmounted t "" [] h input d.root) :=
    Compile.node_mounts (fun _ _ m _ => Compile.mountsAt c m.2) (fun i _ => Compile.mountsAt c i)
      (Compile.entitles_entitled c d.root h root.formName "" []) (.inr rfl) (.refl t)
  rw [List.append_nil] at step
  generalize hx' : Compile.node c _ _ _ _ _ _ = x', hx : Compile.node c.unmounted _ _ _ _ _ _ = x
    at step
  cases step with
  | error e' e => exact .inl ⟨e', e, bind_eq_error hx' _, bind_eq_error hx _⟩
  | ok tree visits keys =>
      have hok : compileForm options [] d h input t = .ok ⟨tree, t.visitAll visits⟩ :=
        bind_eq_ok.2 ⟨_, hx, rfl⟩
      refine .inr ⟨_, _, bind_eq_ok.2 ⟨_, hx', rfl⟩, hok, ?_⟩
      obtain ⟨-, displays⟩ := compileForm_ok hok
      have uses (k : FieldKey) : CompiledForm.Uses ⟨tree, t.visitAll visits⟩ k ↔
          k ∈ visits.map Visit.key := by
        rw [List.nil_append] at keys
        rw [keys, WidgetTree.mem_keysIn_iff]
        rfl
      constructor
      · rfl
      · exact (WidgetTree.propPaths_entitled ..).trans (WidgetTree.propPaths_mounted root tree)
      · intro k used
        exact (RepeatTable.Alike.refl t).find?_of_visited root ((uses k).1 used)
      · intro k unused
        rw [uses] at unused
        exact RepeatTable.Alike.find?_of_not_visited root unused
      · exact (RepeatTable.rebuild_visitAll ..).trans (RepeatTable.rebuild_visitAll ..).symm
      · exact PointerMap.mounted_ofTree displays.inner root _ _

end FormTree
