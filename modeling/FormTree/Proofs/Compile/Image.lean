import FormTree.Proofs.Compile.Items
import FormTree.Proofs.PointerMap.Bijection

/-!
A form as an image of its schema. Every field displays the node of the schema that
its path leads to, and what the field is, holds and offers follows from the shape
of the node, whatever types the node declares and whatever widget its hints name.
-/

namespace FormTree

open WidgetTree (At IsControl IsItem Retouched Row)

/-- The choices of an enumeration, each once, in the order of their first values. -/
def optionKeys (values : List Json) : List String := (values.map Json.displayText).eraseDups

theorem Compile.keys_optionsFor (h : Hint) (values : List Json) :
    (optionsFor h values).map Prod.fst = optionKeys values := by
  rw [optionsFor, Entries.keys_ofList, List.map_map]
  rfl

namespace WidgetTree

/-- The tree holds a widget for each property, in their order. One that is no constant is required
as the list of required names says. -/
def HoldsProperties (t : WidgetTree) (properties : List (String × Schema))
    (required : List String) : Prop :=
  List.Forall₂
    (fun m child => child.widget.name = m.1 ∧ child.path = t.path ++ [.property m.1] ∧
      (m.2.isConst = false → child.widget.required = required.contains m.1))
    properties t.children

/-- The tree holds items, and no element of them is required or has a description. -/
def HoldsElements (t : WidgetTree) : Prop :=
  ∃ (rows : List Row) (add : WidgetTree), t.children = rows.map Row.item ++ [add] ∧
    IsControl t.path .addMore add ∧ ∀ r ∈ rows, IsItem t.path r.index r.element r.item ∧
      r.element.widget.required = false ∧ r.element.widget.description = none

end WidgetTree

namespace Schema

/-- A field is an image of a node of the schema. -/
structure Image (s : Schema) (n : WidgetTree) : Prop where
  markup : n.widget.kind = .markup ↔ s.isConst = true
  constant : s.isConst = true → n.children = [] ∧ n.widget.options = [] ∧
    n.widget.placeholder = none ∧ n.widget.defaultValue = none ∧ n.widget.required = false
  enum : ∀ values, s.shape = .enum values →
    (n.widget.kind = .radios ∨ n.widget.kind.isCustom = true) ∧ n.children = [] ∧
      n.widget.options.map Prod.fst = optionKeys values
  group : n.widget.kind = .group → ∃ properties required rest,
    s.shape = .object properties required rest ∧ n.HoldsProperties properties required
  repeated : n.widget.kind = .repeatable → ∃ items, s.shape = .array items ∧
    items.enumValues? = none ∧ n.HoldsElements
  checkboxes : n.widget.kind = .checkboxes → ∃ items values, s.shape = .array items ∧
    items.shape = .enum values ∧ n.widget.options.map Prod.fst = optionKeys values

/-- Retouched as the display of a node. A constant is not made required. -/
structure Retouches (s : Schema) (t t' : WidgetTree) : Prop where
  same : Retouched t t'
  constant : s.isConst = true → t.widget.required = false → t'.widget.required = false

namespace Image

variable {s : Schema} {n n' : WidgetTree}

theorem retouched (h : s.Image n) (touched : s.Retouches n n') : s.Image n' := by
  obtain ⟨w, children⟩ := n
  obtain ⟨w', children'⟩ := n'
  obtain ⟨⟨sameChildren, title, description, required, sameWidget⟩, constant⟩ := touched
  obtain rfl : children' = children := sameChildren
  obtain rfl : w' = { w with title, description, required } := sameWidget
  refine ⟨h.markup, fun isConst => ?_, h.enum, h.group, h.repeated, h.checkboxes⟩
  obtain ⟨none, noOptions, noPlaceholder, noValue, optional⟩ := h.constant isConst
  exact ⟨none, noOptions, noPlaceholder, noValue, constant isConst optional⟩

theorem of_markup {value : Json} (hs : s.shape = .const value) {w : Widget}
    (options : w.options = []) (optional : w.required = false) :
    s.Image (Compile.markup w value) := by
  have isConst : s.isConst = true := by rw [isConst, hs]
  refine ⟨⟨fun _ => isConst, fun _ => rfl⟩, fun _ => ⟨rfl, options, rfl, rfl, optional⟩, ?_, ?_,
    ?_, ?_⟩
  · intro values hs'
    cases hs.symm.trans hs'
  all_goals rintro ⟨⟩

/-- What is left to be said where the node is no constant. -/
theorem of_parts (noConst : ∀ value, s.shape ≠ .const value) (noMarkup : n.widget.kind ≠ .markup)
    (enum : ∀ values, s.shape = .enum values →
      (n.widget.kind = .radios ∨ n.widget.kind.isCustom = true) ∧ n.children = [] ∧
        n.widget.options.map Prod.fst = optionKeys values)
    (group : n.widget.kind = .group → ∃ properties required rest,
      s.shape = .object properties required rest ∧ n.HoldsProperties properties required)
    (repeated : n.widget.kind = .repeatable → ∃ items, s.shape = .array items ∧
      items.enumValues? = none ∧ n.HoldsElements)
    (checkboxes : n.widget.kind = .checkboxes → ∃ items values, s.shape = .array items ∧
      items.shape = .enum values ∧ n.widget.options.map Prod.fst = optionKeys values) :
    s.Image n := by
  have plain : s.isConst ≠ true := by
    rw [isConst]
    split
    · next value hs => exact absurd hs (noConst value)
    · exact Bool.false_ne_true
  exact ⟨⟨fun kind => absurd kind noMarkup, fun isConst => absurd isConst plain⟩,
    fun isConst => absurd isConst plain, enum, group, repeated, checkboxes⟩

theorem of_choice {values : List Json} (hs : s.shape = .enum values) {w : Widget}
    (kind : n.widget.kind = if w.kind.isCustom then w.kind else .radios)
    (children : n.children = []) (options : n.widget.options.map Prod.fst = optionKeys values) :
    s.Image n := by
  have radios : n.widget.kind = .radios ∨ n.widget.kind.isCustom = true := by
    rw [kind]
    split
    · next custom => exact .inr custom
    · exact .inl rfl
  have other {k : Widget.Kind} (hk : n.widget.kind = k) : k = .radios ∨ k.isCustom = true :=
    hk ▸ radios
  refine .of_parts (by simp [hs]) ?_ ?_ ?_ ?_ ?_
  · exact fun hk => absurd (other hk) (by decide)
  · intro values' hs'
    cases hs.symm.trans hs'
    exact ⟨radios, children, options⟩
  · exact fun hk => absurd (other hk) (by decide)
  · exact fun hk => absurd (other hk) (by decide)
  · exact fun hk => absurd (other hk) (by decide)

theorem of_checkboxes {items : Schema} {values : List Json} (hs : s.shape = .array items)
    (henum : items.enumValues? = some values) (kind : n.widget.kind = .checkboxes)
    (options : n.widget.options.map Prod.fst = optionKeys values) : s.Image n := by
  have hitems : items.shape = .enum values := by
    rw [enumValues?] at henum
    split at henum
    · next hitems =>
      cases henum
      exact hitems
    · cases henum
  refine .of_parts (by simp [hs]) (by simp [kind]) (by simp [hs]) (by simp [kind]) (by simp [kind])
    fun _ => ?_
  exact ⟨items, values, hs, hitems, options⟩

/-- The widget of a node that says nothing about what the widget is made of. -/
theorem of_input (noConst : ∀ value, s.shape ≠ .const value)
    (noEnum : ∀ values, s.shape ≠ .enum values) (input : n.widget.kind.isInput = true)
    (noBoxes : n.widget.kind ≠ .checkboxes) : s.Image n := by
  have other {k : Widget.Kind} (hk : n.widget.kind = k) : k.isInput = true := hk ▸ input
  refine .of_parts noConst ?_ ?_ ?_ ?_ fun kind => absurd kind noBoxes
  · exact fun kind => absurd (other kind) nofun
  · exact fun values hs => absurd hs (noEnum values)
  · exact fun kind => absurd (other kind) nofun
  · exact fun kind => absurd (other kind) nofun

end Image
end Schema

namespace Compile

open Schema (Retouches Route)

variable {c : Context} {t t' T : RepeatTable} {name : String} {p : Path} {h : Hint}
  {input : Option Json} {s : Schema} {tree tree' n : WidgetTree}

theorem retouches_heldProperty (required : List String) (r : (String × Schema) × WidgetTree) :
    r.1.2.Retouches r.2 (heldProperty required r) := by
  refine ⟨retouched_heldProperty required r, ?_⟩
  intro isConst optional
  obtain ⟨m, w, children⟩ := r
  rw [heldProperty, withRequired, if_pos isConst]
  exact optional

/-- An item drops the description of its element, and the mark that it is required. -/
theorem bare_of_wrapItem {q : Path} {title : String} {i j : Nat} {element : WidgetTree}
    (wrapped : IsItem q j element (c.wrapItem p title i tree)) :
    element.widget.required = false ∧ element.widget.description = none := by
  obtain ⟨w, below⟩ := tree
  obtain ⟨_, -, children⟩ := wrapped.children
  obtain ⟨rfl, -⟩ := List.cons.inj children
  exact ⟨rfl, rfl⟩

/-- What wraps an element is one of the items that a repeated field holds. -/
theorem exists_heldItem {title : String} {rows : List (Nat × WidgetTree)} {place i : Nat}
    {item element : WidgetTree}
    (held : (rows.map (c.heldItem p title) ++ [c.addControl p])[place]? = some item)
    (wrapped : IsItem p i element item) :
    ∃ r, rows[place]? = some r ∧ c.heldItem p title r = item := by
  rcases Nat.lt_or_ge place rows.length with inside | outside
  · rw [List.getElem?_append_left (by simpa using inside), List.getElem?_map] at held
    exact Option.map_eq_some_iff.1 held
  · rw [List.getElem?_append_right (by simpa using outside)] at held
    obtain rfl := List.mem_singleton.1 (List.mem_of_getElem? held)
    exact absurd (isControl_addControl c p) wrapped.not_control

private theorem resolvedKind_not_mem (s : Schema) (r : Resolution) :
    resolvedKind s r ∉ [Widget.Kind.markup, .checkboxes] := by
  cases r with
  | type u =>
      cases u with
      | string => rw [resolvedKind, kindFor]; split <;> decide
      | _ => simp [resolvedKind, kindFor]
  | _ => simp [resolvedKind]

/-- A widget that holds no others is an image of its node. -/
private theorem image_of_single (hok : node c t name p h input s = .ok (tree, t'))
    (hr : s.role h = .single) : s.Image tree := by
  obtain ⟨-, w, rfl, -, shows⟩ := node_single hok hr
  have plain (kind : w.kind = resolvedKind s (s.resolve h)) :
      w.kind.isInput = true ∧ w.kind ≠ .checkboxes := by
    have other := resolvedKind_not_mem s (s.resolve h)
    rw [← kind] at other
    simp only [List.mem_cons, List.not_mem_nil, or_false, not_or] at other
    cases shows with
    | constant markup _ => exact absurd markup other.1
    | entered input _ => exact ⟨input, other.2⟩
  rw [node_eq (node_depth hok)] at hok
  rw [Schema.role] at hr
  dsimp only at hok
  split at hok
  · next hs =>
    cases hok
    exact .of_markup hs rfl rfl
  · next hs =>
    cases hok
    exact .of_choice hs rfl rfl (keys_optionsFor h _)
  · next items hs hres =>
    rw [hs, hres] at hr
    dsimp only at hr
    split at hr
    · next henum =>
      obtain ⟨values, hvalues⟩ := Option.isSome_iff_exists.1 henum
      rw [Context.repeated, hvalues] at hok
      cases hok
      exact .of_checkboxes hs hvalues rfl (keys_optionsFor h values)
    · cases hr
  · next hs hres =>
    cases hok
    obtain ⟨input, noBoxes⟩ := plain rfl
    exact .of_input (by simp [hs]) (by simp [hs]) input noBoxes
  · next hs hres =>
    rw [hs, hres] at hr
    cases hr
  · cases hok
  · cases hok
  · cases hok
  · cases hok
  · next hconst henum _ _ _ _ _ _ _ =>
    cases hok
    obtain ⟨input, noBoxes⟩ := plain rfl
    exact .of_input hconst henum input noBoxes

private theorem image_of_group {properties : List (String × Schema)} {required : List String}
    {rows : List ((String × Schema) × WidgetTree)} (hr : s.role h = .group properties required)
    (all : rows.map Prod.fst = properties)
    (stands : ∀ r ∈ rows, c.Stands r.1.1 (p ++ [.property r.1.1]) r.2.widget) :
    s.Image (.node (c.groupWidget s name p h) (rows.map (heldProperty required))) := by
  obtain ⟨rest, hs, -⟩ := Schema.shape_of_group hr
  refine .of_parts (by simp [hs]) nofun (by simp [hs]) ?_ nofun nofun
  refine fun _ => ⟨properties, required, rest, hs, ?_⟩
  rw [WidgetTree.HoldsProperties, ← all]
  refine List.forall₂_map_left_iff.2 (List.forall₂_map_right_iff.2 (List.forall₂_same.2 ?_))
  intro r hr
  have retouched := retouched_heldProperty required r
  refine ⟨?_, retouched.path.trans (stands r hr).path, ?_⟩
  · obtain ⟨-, _, _, _, widget⟩ := retouched
    rw [widget]
    exact (stands r hr).name
  · intro plain
    obtain ⟨m, w, children⟩ := r
    rw [heldProperty, withRequired, if_neg (by simp [plain])]
    rfl

private theorem image_of_repeated {items : Schema} {live : LiveItems}
    {rows : List (Nat × WidgetTree)} (hr : s.role h = .repeated items)
    (all : rows.map Prod.fst = live.indices)
    (stands : ∀ r ∈ rows, c.Stands (toString r.1) (p ++ [.index r.1, .wrapper]) r.2.widget) :
    s.Image (c.repeatable h (c.scaffold s name p h none) live
      (rows.map (c.heldItem p (c.scaffold s name p h none).title))) := by
  obtain ⟨hs, -, henum⟩ := Schema.shape_of_repeated hr
  refine .of_parts (by simp [hs]) nofun (by simp [hs]) nofun ?_ nofun
  refine fun _ => ⟨items, hs, henum, ?_⟩
  have paths : ∀ r ∈ rows, r.2.path = p ++ [.index r.1, .wrapper] :=
    fun r hr => (stands r hr).path
  obtain ⟨held, add, children, -, removable, control, -⟩ := holdsItems_of_rows
    (n := c.repeatable h (c.scaffold s name p h none) live (rows.map (c.heldItem p _))) all paths rfl
  refine ⟨held, add, children, control, fun row hrow => ⟨(removable row hrow).item, ?_⟩⟩
  have inside := List.mem_append_left [add] (List.mem_map_of_mem (f := Row.item) hrow)
  rw [← children] at inside
  obtain ⟨place, hplace⟩ := List.mem_iff_getElem?.1 inside
  have wrapped := (removable row hrow).item
  obtain ⟨r, -, hitem⟩ := exists_heldItem hplace wrapped
  rw [← hitem] at wrapped
  exact bare_of_wrapItem wrapped

/-- What a settled tree is, holds and offers. -/
theorem Settled.image (settled : Settled c T name p h input s tree) : s.Image tree := by
  cases settled with
  | single role built => exact image_of_single (built T) role
  | group role _ all below =>
      exact image_of_group role all fun r hr => stands_of_node (below r hr).node
  | repeated role _ _ _ _ all below =>
      refine image_of_repeated role all fun r hr => ?_
      obtain ⟨place, hplace⟩ := List.mem_iff_getElem?.1 hr
      exact stands_of_node (below place r hplace).node

/-- A field of a settled tree was settled itself, before its parent retouched it. -/
theorem Settled.field (settled : Settled c T name p h input s tree)
    (sound : s.Everywhere Schema.Sound) (touched : s.Retouches tree tree') {rel : Path}
    {tokens : List String} (hat : At tree' rel tokens n) :
    ∃ name' h' input' s' m, Route s h rel tokens s' h' ∧
      Settled c T name' (p ++ rel) h' input' s' m ∧ s'.Retouches m n := by
  induction settled generalizing tree' rel n tokens with
  | @single name p h input s tree role built =>
      cases hat with
      | here =>
          refine ⟨name, h, input, s, tree, .here s h, ?_, touched⟩
          rw [List.append_nil]
          exact .single role built
      | property _ held _ _ =>
          obtain ⟨-, w, rfl, -⟩ := node_single (built T) role
          rw [touched.same.children] at held
          cases held
      | item _ held _ _ =>
          obtain ⟨-, w, rfl, -⟩ := node_single (built T) role
          rw [touched.same.children] at held
          cases held
  | @group name p h input s properties required rows role depth all below ih =>
      cases hat with
      | here =>
          refine ⟨name, h, input, s, _, .here s h, ?_, touched⟩
          rw [List.append_nil]
          exact .group role depth all below
      | @property _ child _ key rel tokens _ held path inside =>
          rw [touched.same.children] at held
          rw [touched.same.path] at path
          obtain ⟨r, hr, rfl⟩ := List.mem_map.1 held
          have here : r.2.path = p ++ [.property r.1.1] := (stands_of_node (below r hr).node).path
          rw [(retouched_heldProperty required r).path, here] at path
          obtain rfl : key = r.1.1 := by simpa using (List.append_cancel_left path).symm
          have declared : r.1 ∈ properties := all ▸ List.mem_map_of_mem hr
          have hproperties := Schema.properties_of_group role
          have names := sound.here.names
          rw [Schema.names, hproperties, Option.getD_some] at names
          obtain ⟨name', h', input', s', m, route, settled, same⟩ :=
            ih r hr (sound.property hproperties declared) (retouches_heldProperty required r) inside
          rw [List.append_assoc] at settled
          exact ⟨name', h', input', s', m, .property role (lookup_of_mem names declared) route,
            settled, same⟩
      | item kind _ _ _ =>
          rw [touched.same.kind] at kind
          cases kind
  | @repeated name p h input s items key live rows role depth field known location all below ih =>
      cases hat with
      | here =>
          refine ⟨name, h, input, s, _, .here s h, ?_, touched⟩
          rw [List.append_nil]
          exact .repeated role depth field known location all below
      | property kind _ _ _ =>
          rw [touched.same.kind] at kind
          cases kind
      | @item _ item element _ place i rel tokens _ held wrapped inside =>
          rw [touched.same.children] at held
          rw [touched.same.path] at wrapped
          obtain ⟨r, hr, rfl⟩ := exists_heldItem held wrapped
          obtain ⟨element', same, wrapped', -⟩ :=
            wrapItem_eq c p (c.scaffold s name p h none).title r.1 r.2
          obtain ⟨rfl, rfl⟩ := wrapped.unique wrapped'
          obtain ⟨name', h', input', s', m, route, settled, same⟩ :=
            ih place r hr (sound.item (Schema.items_of_repeated role))
              ⟨same, fun _ _ => (bare_of_wrapItem wrapped').1⟩ inside
          rw [List.append_assoc] at settled
          exact ⟨name', h', input', s', m, .item role route, settled, same⟩

end Compile

section Form

variable {options : CompileOptions} {root : Path} {d : SchemaDocument} {h : Hint}
  {input : Option Json} {t : RepeatTable} {form : CompiledForm} {n : WidgetTree}

/-- Every field of a form is an image of the node of the schema that its path leads to. -/
theorem image_of_compileForm (accepted : d.Accepted) (reachable : t.Reachable)
    (hok : compileForm options root d h input t = .ok form) (hn : n ∈ form.tree.nodes)
    (field : n.widget.kind.isStructural = false) :
    ∃ s, d.nodeAt? n.widget.propPath = some s ∧ s.Image n := by
  have layout := layout_of_compileForm accepted reachable hok
  obtain ⟨-, displays⟩ := compileForm_ok hok
  obtain ⟨rel, tokens, hat, -⟩ := PointerMap.pointer?_ofTree layout hn field
  have settled := settled_of_compileForm accepted reachable hok
  obtain ⟨_, _, _, s, m, route, settled', touched⟩ :=
    settled.field accepted.sound ⟨.refl _, fun _ => id⟩ hat
  exact ⟨s, displays.nodeAt?_propPath hat accepted.sound route, settled'.image.retouched touched⟩

end Form

/-- A constant beside a set of colours, one of which is named twice. -/
private def palette : SchemaDocument :=
  let colours : List Json := [.string "red", .string "blue", .string "red"]
  let colour : Schema := ⟨[.string], none, none, none, none, .enum colours⟩
  let version : Schema := ⟨[], none, none, none, none, .const (.string "one")⟩
  let chosen : Schema := ⟨[.array], none, none, none, none, .array colour⟩
  { raw := .object
      [("type", .string "object"),
        ("properties", .object
          [("version", .object [("const", .string "one")]),
            ("chosen", .object
              [("type", .string "array"),
                ("items", .object
                  [("type", .string "string"), ("enum", .array colours)])])])]
    root := ⟨[.object], none, none, none, none,
      .object [("version", version), ("chosen", chosen)] [] none⟩ }

private def chosenPath : Path := [.property "form", .property "chosen"]

private theorem compile_palette :
    (compileForm {} [.property "form"] palette {} none .empty).map (fun form =>
      (form.tree.nodes.find? fun n => n.path = chosenPath).map fun n =>
        (n.widget.kind, n.widget.options.map Prod.fst)) =
      .ok (some (.checkboxes, ["red", "blue"])) := by decide +kernel

theorem image_of_compileForm_in_palette : ∃ form n,
    palette.Accepted ∧ RepeatTable.empty.Reachable ∧
      compileForm {} [.property "form"] palette {} none .empty = .ok form ∧
        n ∈ form.tree.nodes ∧ n.widget.kind = .checkboxes ∧
          n.widget.options.map Prod.fst = ["red", "blue"] ∧
            ∃ s, palette.nodeAt? n.widget.propPath = some s ∧ s.Image n := by
  have accepted : palette.Accepted := ⟨32, palette.raw, by simp [palette], rfl⟩
  have reachable : RepeatTable.empty.Reachable := .empty
  have found := compile_palette
  cases hok : compileForm {} [.property "form"] palette {} none .empty with
  | error e => rw [hok] at found; cases found
  | ok form =>
      rw [hok] at found
      obtain ⟨n, hn, shown⟩ := Option.map_eq_some_iff.1 (Except.ok.inj found)
      obtain ⟨kind, options⟩ := Prod.mk.inj shown
      have inside := List.mem_of_find?_eq_some hn
      have field : n.widget.kind.isStructural = false := by rw [kind]; rfl
      exact ⟨form, n, accepted, reachable, rfl, inside, kind, options,
        image_of_compileForm accepted reachable hok inside field⟩

end FormTree
