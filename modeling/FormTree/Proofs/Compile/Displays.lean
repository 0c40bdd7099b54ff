import FormTree.Proofs.Compile.Node
import FormTree.Proofs.Repeat.Growth
import FormTree.Proofs.Schema.Nodes
import FormTree.Proofs.Widget.Layout

/-!
A tree displays a node of the schema when each widget has the role, the name, the
path and the value that its node, hints and input give it, and each repeated field
has an item for every index that the table holds in the end. What compiles is
displayed, and all that happens to the table is that records are made.
-/

namespace FormTree
namespace Compile

open WidgetTree (Row IsItem IsControl)

inductive Displays (c : Context) (T : RepeatTable) :
    String → Path → Hint → Option Json → Schema → WidgetTree → Prop
  | single {name : String} {p : Path} {h : Hint} {input : Option Json} {s : Schema} {w : Widget}
      (role : s.role h = .single) (stands : c.Stands name p w) (shows : Shows s input w) :
      Displays c T name p h input s (.node w [])
  | group {name : String} {p : Path} {h : Hint} {input : Option Json} {s : Schema} {w : Widget}
      {properties : List (String × Schema)} {required : List String}
      {rows : List ((String × Schema) × WidgetTree)}
      (role : s.role h = .group properties required) (stands : c.Stands name p w)
      (kind : w.kind = .group) (all : rows.map Prod.fst = properties)
      (below : ∀ r ∈ rows, Displays c T r.1.1 (p ++ [.property r.1.1]) (h.child r.1.1)
        (input.bind (·.member? r.1.1)) r.1.2 r.2) :
      Displays c T name p h input s (.node w (rows.map Prod.snd))
  | repeated {name : String} {p : Path} {h : Hint} {input : Option Json} {s items : Schema}
      {w : Widget} {key : FieldKey} {rows : List Row} {add : WidgetTree}
      (role : s.role h = .repeated items) (stands : c.Stands name p w)
      (kind : w.kind = .repeatable) (field : FieldKey.ofPath? (c.schemaPath p) = some key)
      (all : rows.map Row.index = T.indices key)
      (wrapped : ∀ r ∈ rows, IsItem p r.index r.element r.item)
      (below : ∀ n r, rows[n]? = some r → Displays c T (toString r.index)
        (p ++ [.index r.index, .wrapper]) h.item (itemInput input n r.index) items r.element)
      (control : IsControl p .addMore add) :
      Displays c T name p h input s (.node w (rows.map Row.item ++ [add]))

variable {c : Context} {T t t' : RepeatTable} {name : String} {p : Path} {h : Hint}
  {input : Option Json} {s : Schema}

/-- The depth of a path counts the steps from the mount that are no wrappers or controls. -/
theorem Context.depth_append (c : Context) (rel : Path) :
    c.depth (c.root ++ rel) = rel.withoutSynthetic.length := by
  rw [depth, Path.below?_append]
  rfl

theorem Displays.stands {tree : WidgetTree} (hd : Displays c T name p h input s tree) :
    c.Stands name p tree.widget := by
  cases hd with
  | single _ stands _ | group _ stands _ _ _ | repeated _ stands _ _ _ _ _ _ => exact stands

theorem Displays.single_of_isInput {n : WidgetTree} (hd : Displays c T name p h input s n)
    (kind : n.widget.kind.isInput = true) :
    s.role h = .single ∧ n.widget.defaultValue = (input.filter (· ≠ .null) <|> s.default) := by
  cases hd with
  | single role _ shows =>
      cases shows with
      | constant markup _ =>
          rw [WidgetTree.widget, markup] at kind
          cases kind
      | entered _ value => exact ⟨role, value⟩
  | group _ _ group _ _ =>
      rw [WidgetTree.widget, group] at kind
      cases kind
  | repeated _ _ repeatable _ _ _ _ _ =>
      rw [WidgetTree.widget, repeatable] at kind
      cases kind

/-- Titles, descriptions and the like are not looked at. -/
theorem Displays.retouch {tree : WidgetTree} (hd : Displays c T name p h input s tree)
    {w : Widget} (hname : w.name = tree.widget.name) (hpath : w.path = tree.widget.path)
    (hprop : w.propPath = tree.widget.propPath) (hkind : w.kind = tree.widget.kind)
    (hvalue : w.defaultValue = tree.widget.defaultValue) :
    Displays c T name p h input s (.node w tree.children) := by
  have stands : c.Stands name p w :=
    ⟨hname.trans hd.stands.name, hpath.trans hd.stands.path, hprop.trans hd.stands.propPath⟩
  cases hd with
  | single role _ shows =>
      refine .single role stands ?_
      cases shows with
      | constant kind value => exact .constant (hkind.trans kind) (hvalue.trans value)
      | entered kind value => exact .entered (hkind ▸ kind) (hvalue.trans value)
  | group role _ kind all below => exact .group role stands (hkind.trans kind) all below
  | repeated role _ kind field all wrapped below control =>
      exact .repeated role stands (hkind.trans kind) field all wrapped below control

theorem Displays.withRequired {tree : WidgetTree} (hd : Displays c T name p h input s tree)
    (required : Bool) : Displays c T name p h input s (withRequired s required tree) := by
  obtain ⟨w, children⟩ := tree
  rw [Compile.withRequired]
  split
  · exact hd
  · exact hd.retouch rfl rfl rfl rfl rfl

theorem isControl_addControl (c : Context) (p : Path) : IsControl p .addMore (c.addControl p) :=
  ⟨rfl, rfl, rfl⟩

theorem isControl_removeControl (c : Context) (p : Path) (i : Nat) :
    IsControl p .remove (c.removeControl p i) :=
  ⟨rfl, rfl, rfl⟩

theorem wrapItem_displays (title : String) (i : Nat) {element : WidgetTree} {q : Path}
    (hd : Displays c T name q h input s element) :
    ∃ element', IsItem p i element' (c.wrapItem p title i element) ∧
      Displays c T name q h input s element' := by
  obtain ⟨w, children⟩ := element
  let itemTitle := c.options.itemTitle title i
  let w' : Widget := { w with required := false, description := none, title := itemTitle }
  have wrapped : IsItem p i (.node w' children) (c.wrapItem p title i (.node w children)) :=
    ⟨rfl, rfl, rfl, _, isControl_removeControl c _ i, rfl⟩
  exact ⟨.node w' children, wrapped, hd.retouch rfl rfl rfl rfl rfl⟩

/-- Whatever the node compiles to displays it. -/
private def Compiles (c : Context) (s : Schema) : Prop :=
  ∀ ⦃t t' name p h input tree⦄, node c t name p h input s = .ok (tree, t') →
    t.Ensured t' ∧ ∀ T, t'.Grows T → Displays c T name p h input s tree

private theorem members_displays {properties : List (String × Schema)}
    (below : ∀ m ∈ properties, Compiles c m.2) {required : List String}
    {children : List WidgetTree}
    (hok : members c t p h input required properties = .ok (children, t')) :
    t.Ensured t' ∧ ∀ T, t'.Grows T →
      ∃ rows : List ((String × Schema) × WidgetTree),
        rows.map Prod.fst = properties ∧ rows.map Prod.snd = children ∧
          ∀ r ∈ rows, Displays c T r.1.1 (p ++ [.property r.1.1]) (h.child r.1.1)
            (input.bind (·.member? r.1.1)) r.1.2 r.2 := by
  induction properties generalizing t children with
  | nil =>
      rw [members] at hok
      cases hok
      exact ⟨.refl, fun T _ => ⟨[], rfl, rfl, nofun⟩⟩
  | cons m properties ih =>
      obtain ⟨key, s⟩ := m
      rw [members] at hok
      obtain ⟨⟨child, u⟩, hchild, hok⟩ := bind_eq_ok.1 hok
      obtain ⟨⟨rest, v⟩, hrest, hok⟩ := bind_eq_ok.1 hok
      cases hok
      obtain ⟨first, displayed⟩ := below _ List.mem_cons_self hchild
      obtain ⟨second, displayedRest⟩ :=
        ih (fun m hm => below m (List.mem_cons_of_mem _ hm)) hrest
      refine ⟨first.trans second, fun T hT => ?_⟩
      obtain ⟨rows, all, rfl, displays⟩ := displayedRest T hT
      have here := (displayed T (second.grows.trans hT)).withRequired (required.contains key)
      exact ⟨((key, s), _) :: rows, by rw [List.map_cons, all], rfl,
        List.forall_mem_cons.2 ⟨here, displays⟩⟩

private theorem items_displays {items : Schema} (below : Compiles c items) {title : String}
    {place : Nat} {indices : List Nat} {children : List WidgetTree}
    (hok : forItems (c.item p title h input items) place indices t = .ok (children, t')) :
    t.Ensured t' ∧ ∀ T, t'.Grows T →
      ∃ rows : List Row, rows.map Row.index = indices ∧ rows.map Row.item = children ∧
        (∀ r ∈ rows, IsItem p r.index r.element r.item) ∧
          ∀ n r, rows[n]? = some r → Displays c T (toString r.index)
            (p ++ [.index r.index, .wrapper]) h.item (itemInput input (place + n) r.index) items
            r.element := by
  induction indices generalizing t place children with
  | nil =>
      rw [forItems] at hok
      cases hok
      exact ⟨.refl, fun T _ => ⟨[], rfl, rfl, nofun, nofun⟩⟩
  | cons i indices ih =>
      rw [forItems] at hok
      obtain ⟨⟨item, u⟩, hitem, hok⟩ := bind_eq_ok.1 hok
      obtain ⟨⟨rest, v⟩, hrest, hok⟩ := bind_eq_ok.1 hok
      cases hok
      obtain ⟨⟨element, u'⟩, helement, hitem⟩ := bind_eq_ok.1 hitem
      cases hitem
      obtain ⟨first, displayed⟩ := below helement
      obtain ⟨second, displayedRest⟩ := ih hrest
      refine ⟨first.trans second, fun T hT => ?_⟩
      obtain ⟨rows, all, rfl, wrapped, displays⟩ := displayedRest T hT
      obtain ⟨element', here, shown⟩ :=
        wrapItem_displays (p := p) title i (displayed T (second.grows.trans hT))
      refine ⟨⟨i, element', _⟩ :: rows, by rw [List.map_cons, all], rfl,
        List.forall_mem_cons.2 ⟨here, wrapped⟩, ?_⟩
      intro n r hr
      cases n with
      | zero =>
          cases hr
          exact shown
      | succ n =>
          rw [← Nat.add_assoc, Nat.add_right_comm]
          exact displays n r hr

theorem itemCount_le (input : Option Json) : itemCount input ≤ maxIndex := by
  unfold itemCount
  split
  · exact Nat.min_le_right _ _
  · exact Nat.min_le_right _ _
  · exact Nat.zero_le _

private theorem compiles (c : Context) (s : Schema) : Compiles c s := by
  refine Schema.induct ?_ s
  intro s properties items _ t t' name p h input tree hok
  cases hr : s.role h with
  | single =>
      obtain ⟨rfl, w, rfl, stands, shows⟩ := node_single hok hr
      exact ⟨.refl, fun T _ => .single hr stands shows⟩
  | group ps required =>
      obtain ⟨w, children, rfl, stands, kind, hmembers⟩ := node_group hok hr
      obtain ⟨ensured, displayed⟩ :=
        members_displays (properties ps (Schema.properties_of_group hr)) hmembers
      refine ⟨ensured, fun T hT => ?_⟩
      obtain ⟨rows, all, rfl, below⟩ := displayed T hT
      exact .group hr stands kind all below
  | repeated i =>
      obtain ⟨key, w, title, children, field, rfl, stands, kind, hitems⟩ := node_repeated hok hr
      obtain ⟨ensured, displayed⟩ := items_displays (items i (Schema.items_of_repeated hr)) hitems
      have made : t.Ensures (t.ensure key (itemCount input) p) := .ensure (itemCount_le input) p
      refine ⟨.head made ensured, fun T hT => ?_⟩
      obtain ⟨rows, all, rfl, wrapped, below⟩ := displayed T hT
      have known : (t.ensure key (itemCount input) p).find? key =
          some (t.ensured key (itemCount input) p) := by
        rw [RepeatTable.find?_ensure, if_pos rfl]
      have same : T.indices key = (t.ensured key (itemCount input) p).indices := by
        rw [(ensured.grows.trans hT).indices (by rw [known]; rfl), RepeatTable.indices, known]
        rfl
      refine .repeated hr stands kind field (all.trans same.symm) wrapped ?_
        (isControl_addControl c p)
      intro n r hr
      have := below n r hr
      rwa [Nat.zero_add] at this

section Ensured

theorem ensured_of_members {properties : List (String × Schema)} {required : List String}
    {children : List WidgetTree}
    (hok : members c t p h input required properties = .ok (children, t')) : t.Ensured t' :=
  (members_displays (fun m _ => compiles c m.2) hok).1

theorem ensured_of_forItems {items : Schema} {title : String} {place : Nat} {indices : List Nat}
    {children : List WidgetTree}
    (hok : forItems (c.item p title h input items) place indices t = .ok (children, t')) :
    t.Ensured t' :=
  (items_displays (compiles c items) hok).1

end Ensured

end Compile

/-- The tree that a form compiles to displays its schema, with the items of the table that is
handed on. -/
theorem compileForm_ok {options : CompileOptions} {root : Path} {d : SchemaDocument} {h : Hint}
    {input : Option Json} {t : RepeatTable} {form : CompiledForm}
    (hok : compileForm options root d h input t = .ok form) :
    t.Ensured form.table ∧
      Compile.Displays ⟨options, root⟩ form.table ((root.getLast?.map Segment.key).getD "") root h
        input d.root form.tree := by
  obtain ⟨⟨tree, table⟩, hnode, hok⟩ := bind_eq_ok.1 hok
  cases hok
  obtain ⟨ensured, displayed⟩ := Compile.compiles _ _ hnode
  exact ⟨ensured, displayed table (RepeatTable.grows_refl table)⟩

end FormTree
