import FormTree.Proofs.PointerMap.Bijection
import FormTree.Proofs.Submission.Origin

/-!
Full submissions of a form. Each widget submits a value of its kind, and a
repeated field an entry for each of its items in their order. What a widget
submits is found in the prepared document at the pointer of that widget.
-/

namespace FormTree

open WidgetTree (At IsControl IsItem Layout Row)

namespace WidgetTree

/-- The items that a repeated field holds, without the add control. -/
def removableItems (t : WidgetTree) : List WidgetTree :=
  t.children.filter fun n => n.widget.kind = .removableItem

theorem IsControl.not_removableItem {p : Path} {kind : Control} {t : WidgetTree}
    (h : IsControl p kind t) : t.widget.kind ≠ .removableItem := by
  intro hk
  have := h.isControl
  rw [hk] at this
  cases this

theorem removableItems_rows {p : Path} {w : Widget} {rows : List Row} {add : WidgetTree}
    (items : ∀ r ∈ rows, IsItem p r.index r.element r.item) (control : IsControl p .addMore add) :
    removableItems (.node w (rows.map Row.item ++ [add])) = rows.map Row.item := by
  have kept : (rows.map Row.item).filter (fun n => n.widget.kind = .removableItem) =
      rows.map Row.item := by
    rw [List.filter_eq_self]
    intro n hn
    obtain ⟨r, hr, rfl⟩ := List.mem_map.1 hn
    exact decide_eq_true (items r hr).kind
  rw [removableItems, children, List.filter_append, kept, List.filter_cons_of_neg, List.filter_nil,
    List.append_nil]
  simpa using control.not_removableItem

theorem IsItem.child?_wrapper {p : Path} {i : Nat} {element item : WidgetTree}
    (h : IsItem p i element item) (path : element.path = p ++ [.index i, .wrapper]) :
    item.child? .wrapper = some element := by
  obtain ⟨control, -, children⟩ := h.children
  rw [child?, children, List.find?_cons_of_pos]
  rw [endsIn, path, List.getLast?_append]
  rfl

end WidgetTree

namespace Compile

theorem Shows.not_container {s : Schema} {input : Option Json} {w : Widget}
    (h : Shows s input w) : w.kind ≠ .group ∧ w.kind ≠ .repeatable := by
  cases h with
  | constant kind _ => simp [kind]
  | entered kind _ => constructor <;> intro hk <;> simp [hk, Widget.Kind.isInput] at kind

private theorem elements_path {c : Context} {T : RepeatTable} {p : Path} {h : Hint}
    {input : Option Json} {items : Schema} {rows : List Row}
    (below : ∀ n r, rows[n]? = some r → Displays c T (toString r.index)
      (p ++ [.index r.index, .wrapper]) h.item (itemInput input n r.index) items r.element) :
    ∀ r ∈ rows, r.element.path = p ++ [.index r.index, .wrapper] := by
  intro r hr
  obtain ⟨n, hn⟩ := List.mem_iff_getElem?.1 hr
  exact (below n r hn).stands.path

end Compile

namespace Submission

/-- A tree submits a value: a group an object under names of its children, a repeated field an
entry for each of its items in their order, and every other field a scalar. -/
inductive Full : WidgetTree → Json → Prop
  | value {t : WidgetTree} {v : Json} (group : t.widget.kind ≠ .group)
      (repeatable : t.widget.kind ≠ .repeatable) (scalar : isScalar v = true) : Full t v
  | group {t : WidgetTree} {members : List (String × Json)} (kind : t.widget.kind = .group)
      (keys : (members.map Prod.fst).Nodup)
      (names : ∀ m ∈ members, m.1 ∈ t.children.map fun child => child.widget.name)
      (below : ∀ m ∈ members, ∀ child ∈ t.children, child.widget.name = m.1 → Full child m.2) :
      Full t (.object members)
  | repeated {t : WidgetTree} {members : List (String × Json)} {submitted : List Entered}
      (kind : t.widget.kind = .repeatable) (submits : Submits members submitted)
      (order : (t.removableItems.map fun item => item.widget.name) =
        submitted.map fun e => toString e.index)
      (below : ∀ e ∈ submitted, ∀ item ∈ t.removableItems, item.widget.name = toString e.index →
        ∀ element, item.child? .wrapper = some element → Full element e.value) :
      Full t (.object members)

open Compile (Context Displays)

section Tree

variable {c : Context} {T : RepeatTable} {name : String} {p : Path} {h : Hint}
  {input : Option Json} {s : Schema} {t n : WidgetTree} {raw v : Json}

theorem Full.group_members (full : Full t raw) (kind : t.widget.kind = .group) :
    ∃ members, raw = .object members ∧ (members.map Prod.fst).Nodup ∧
      (∀ m ∈ members, m.1 ∈ t.children.map fun child => child.widget.name) ∧
        ∀ m ∈ members, ∀ child ∈ t.children, child.widget.name = m.1 → Full child m.2 := by
  cases full with
  | value group _ _ => exact absurd kind group
  | group _ keys names below => exact ⟨_, rfl, keys, names, below⟩
  | repeated kind' _ _ _ => exact absurd (kind.symm.trans kind') nofun

/-- A submission of rows of items holds their indices in order, and submits each element. -/
theorem full_rows_iff {w : Widget} {rows : List Row} {add : WidgetTree}
    (kind : w.kind = .repeatable) (items : ∀ r ∈ rows, IsItem p r.index r.element r.item)
    (control : IsControl p .addMore add)
    (paths : ∀ r ∈ rows, r.element.path = p ++ [.index r.index, .wrapper]) :
    Full (.node w (rows.map Row.item ++ [add])) raw ↔
      ∃ members submitted, raw = .object members ∧ Submits members submitted ∧
        rows.map Row.index = submitted.map Entered.index ∧
          ∀ e ∈ submitted, ∀ r ∈ rows, r.index = e.index → Full r.element e.value := by
  have held := WidgetTree.removableItems_rows (w := w) items control
  have names : (rows.map Row.item).map (fun item => item.widget.name) =
      (rows.map Row.index).map (toString : Nat → String) := by
    rw [List.map_map, List.map_map]
    exact List.map_congr_left fun r hr => (items r hr).name
  constructor
  · intro full
    cases full with
    | value _ repeatable _ => exact absurd kind repeatable
    | group kind' _ _ _ => exact absurd (kind.symm.trans kind') nofun
    | @repeated _ members submitted _ submits order below =>
        rw [held] at order below
        have texts : (rows.map Row.index).map toString =
            (submitted.map Entered.index).map (toString : Nat → String) :=
          names.symm.trans (order.trans List.map_map.symm)
        have indices := List.map_injective_iff.2 (fun _ _ => Pointer.toString_injective) texts
        refine ⟨members, submitted, rfl, submits, indices, ?_⟩
        intro e he r hr same
        have itemName : r.item.widget.name = toString e.index := same ▸ (items r hr).name
        exact below e he r.item (List.mem_map_of_mem hr) itemName r.element
          ((items r hr).child?_wrapper (paths r hr))
  · rintro ⟨members, submitted, rfl, submits, indices, below⟩
    refine .repeated kind submits ?_ ?_
    · rw [held, names, indices, List.map_map]
      rfl
    · rw [held]
      intro e he item hitem itemName element helement
      obtain ⟨r, hr, rfl⟩ := List.mem_map.1 hitem
      rw [(items r hr).child?_wrapper (paths r hr)] at helement
      cases helement
      rw [(items r hr).name] at itemName
      exact below e he r hr (Pointer.toString_injective itemName)

theorem Full.shaped (full : Full t raw) (hd : Displays c T name p h input s t) :
    Shaped s h raw := by
  induction hd generalizing raw with
  | @single _ _ _ _ _ w role _ shows =>
      obtain ⟨group, repeatable⟩ := shows.not_container
      cases full with
      | value _ _ scalar => exact .value role scalar
      | group kind _ _ _ => exact absurd kind group
      | repeated kind _ _ _ => exact absurd kind repeatable
  | @group _ _ _ _ _ _ properties _ rows role _ kind all shown ih =>
      obtain ⟨members, rfl, keys, names, below⟩ := full.group_members kind
      have named : ∀ r ∈ rows, r.2.widget.name = r.1.1 := fun r hr => (shown r hr).stands.name
      refine .group role keys ?_ ?_
      · intro m hm
        obtain ⟨child, held, hname⟩ := List.mem_map.1 (names m hm)
        obtain ⟨r, hr, rfl⟩ := List.mem_map.1 held
        rw [← hname, named r hr, ← all, List.map_map]
        exact List.mem_map_of_mem hr
      · intro m hm s' hs'
        have declared : (m.1, s') ∈ rows.map Prod.fst := all ▸ mem_of_lookup hs'
        obtain ⟨r, hr, heq⟩ := List.mem_map.1 declared
        have hname : r.1.1 = m.1 := congrArg Prod.fst heq
        have hschema : r.1.2 = s' := congrArg Prod.snd heq
        have inside : r.2 ∈ rows.map Prod.snd := List.mem_map_of_mem hr
        have shaped := ih r hr (below m hm r.2 inside ((named r hr).trans hname))
        rwa [hname, hschema] at shaped
  | @repeated _ _ _ _ _ _ _ _ rows _ role _ kind _ _ items shown control ih =>
      obtain ⟨members, submitted, rfl, submits, indices, below⟩ :=
        (full_rows_iff kind items control (Compile.elements_path shown)).1 full
      refine .repeated role submits ?_
      intro e he
      have known : e.index ∈ rows.map Row.index := indices ▸ List.mem_map_of_mem he
      obtain ⟨r, hr, same⟩ := List.mem_map.1 known
      obtain ⟨n, hn⟩ := List.mem_iff_getElem?.1 hr
      exact ih n r hn (below e he r hr same)

theorem full_of_single (hd : Displays c T name p h input s t) (role : s.role h = .single)
    (scalar : isScalar v = true) : Full t v := by
  cases hd with
  | single _ _ shows =>
      obtain ⟨group, repeatable⟩ := shows.not_container
      exact .value group repeatable scalar
  | group role' _ _ _ _ => exact absurd (role.symm.trans role') nofun
  | repeated role' _ _ _ _ _ _ _ => exact absurd (role.symm.trans role') nofun

theorem full_of_group {properties : List (String × Schema)} {required : List String}
    {members : List (String × Json)} (hd : Displays c T name p h input s t)
    (role : s.role h = .group properties required) (keys : (members.map Prod.fst).Nodup)
    (declared : ∀ m ∈ members, m.1 ∈ properties.map Prod.fst)
    (below : ∀ m ∈ members, ∀ s', (m.1, s') ∈ properties → ∀ child,
      Displays c T m.1 (p ++ [.property m.1]) (h.child m.1) (input.bind (·.member? m.1)) s' child →
        Full child m.2) :
    Full t (.object members) := by
  cases hd with
  | single role' _ _ => exact absurd (role.symm.trans role') nofun
  | repeated role' _ _ _ _ _ _ _ => exact absurd (role.symm.trans role') nofun
  | @group _ _ _ _ _ _ _ _ rows role' _ kind all shown =>
      cases role.symm.trans role'
      refine .group kind keys ?_ ?_
      · intro m hm
        have known := declared m hm
        rw [← all, List.map_map] at known
        obtain ⟨r, hr, hname⟩ := List.mem_map.1 known
        rw [WidgetTree.children, List.map_map, List.mem_map]
        exact ⟨r, hr, (shown r hr).stands.name.trans hname⟩
      · intro m hm child held hname
        obtain ⟨r, hr, rfl⟩ := List.mem_map.1 held
        obtain ⟨⟨key, s'⟩, child⟩ := r
        obtain rfl : key = m.1 := (shown _ hr).stands.name.symm.trans hname
        exact below m hm s' (all ▸ List.mem_map_of_mem hr) child (shown _ hr)

/-- A repeated field submits an entry for each index that the table holds. -/
theorem full_of_repeated {items : Schema} {key : FieldKey} {members : List (String × Json)}
    {submitted : List Entered} (hd : Displays c T name p h input s t)
    (role : s.role h = .repeated items) (field : FieldKey.ofPath? (c.schemaPath p) = some key)
    (submits : Submits members submitted) (indices : T.indices key = submitted.map Entered.index)
    (below : ∀ e ∈ submitted, ∀ input' element,
      Displays c T (toString e.index) (p ++ [.index e.index, .wrapper]) h.item input' items
        element → Full element e.value) :
    Full t (.object members) := by
  cases hd with
  | single role' _ _ => exact absurd (role.symm.trans role') nofun
  | group role' _ _ _ _ => exact absurd (role.symm.trans role') nofun
  | @repeated _ _ _ _ _ _ _ _ rows _ role' _ kind field' all wrapped shown control =>
      cases role.symm.trans role'
      cases field.symm.trans field'
      refine (full_rows_iff kind wrapped control (Compile.elements_path shown)).2
        ⟨members, submitted, rfl, submits, all.trans indices, ?_⟩
      intro e he r hr same
      obtain ⟨n, hn⟩ := List.mem_iff_getElem?.1 hr
      exact below e he _ r.element (same ▸ shown n r hn)

/-- A full submission holds the entry of an item at the place of the item, under its index. -/
theorem Full.item_entry (full : Full t raw) (hd : Displays c T name p h input s t)
    (kind : t.widget.kind = .repeatable) {place i : Nat} {item element : WidgetTree}
    (held : t.children[place]? = some item) (wrapped : WidgetTree.IsItem t.path i element item) :
    ∃ members submitted e, raw = .object members ∧ Submits members submitted ∧
      submitted[place]? = some e ∧ e.index = i ∧ Full element e.value := by
  cases hd with
  | single => cases held
  | group _ _ kind' _ _ => exact absurd (kind.symm.trans kind') nofun
  | repeated _ stands _ _ _ items shown control =>
      obtain ⟨members, submitted, rfl, submits, indices, below⟩ :=
        (full_rows_iff kind items control (Compile.elements_path shown)).1 full
      rw [WidgetTree.path, WidgetTree.widget, stands.path] at wrapped
      have row := WidgetTree.row_at items control held wrapped
      have index : (submitted.map Entered.index)[place]? = some i := by
        rw [← indices, List.getElem?_map, row]
        rfl
      rw [List.getElem?_map] at index
      obtain ⟨e, he, rfl⟩ := Option.map_eq_some_iff.1 index
      exact ⟨members, submitted, e, rfl, submits, he, rfl,
        below e (List.mem_of_getElem? he) _ (List.mem_of_getElem? row) rfl⟩

/-- A value that a field of the form submits has its origin under the keys of its segments. -/
theorem Full.origin {rel : Path} {tokens : List String} (full : Full t raw)
    (hd : Displays c T name p h input s t) (sound : s.Everywhere Schema.Sound)
    (hat : At t rel tokens n) (entered : entered? (rel.map Segment.key) raw = some v) :
    ∃ s' h', s.Route h rel tokens s' h' ∧ Full n v ∧
      Origin s h raw tokens (rel.map Segment.key) s' v := by
  induction hat generalizing raw name p h input s with
  | here =>
      cases entered
      exact ⟨s, h, .here s h, full, .here s h _⟩
  | @property t child n key rel tokens kind held path _ ih =>
      obtain ⟨members, rfl, keys, -, below⟩ := full.group_members kind
      obtain ⟨properties, required, u, role, declared, soundBelow, shown⟩ :=
        hd.property kind held path sound
      rw [List.map_cons, Segment.key, entered?, Json.member?] at entered
      obtain ⟨w, hw, entered⟩ := Option.bind_eq_some_iff.1 entered
      have fullBelow := below _ (mem_of_lookup hw) child held shown.stands.name
      obtain ⟨s', h', route, fullHere, origin⟩ := ih fullBelow shown soundBelow entered
      exact ⟨s', h', .property role declared route, fullHere, .property role declared hw origin⟩
  | @item t item element n place i rel tokens kind held wrapped _ ih =>
      obtain ⟨items, role, shown⟩ := hd.item kind held wrapped
      obtain ⟨members, submitted, e, rfl, submits, he, rfl, fullBelow⟩ :=
        full.item_entry hd kind held wrapped
      have inside := List.mem_of_getElem? he
      have wraps := submits.wrapped e inside
      rw [List.map_cons, List.map_cons, Segment.key, Segment.key, entered?, Json.member?,
        submits.lookup inside, Option.bind_some, entered?, wraps.member?,
        Option.bind_some] at entered
      obtain ⟨s', h', route, fullHere, origin⟩ :=
        ih fullBelow shown (sound.item (Schema.items_of_repeated role)) entered
      have entry : (entries members)[place]? = some (toString e.index, e.wrapper) := by
        rw [submits.entries, List.getElem?_map, he]
        rfl
      exact ⟨s', h', .item role route, fullHere, .item role entry wraps origin⟩

/-- In a full submission a value has its origin under the keys of the field at its pointer. -/
theorem Full.keys_eq {rel : Path} {tokens keys : List String} {s' : Schema} (full : Full t raw)
    (hd : Displays c T name p h input s t) (sound : s.Everywhere Schema.Sound)
    (hat : At t rel tokens n) (origin : Origin s h raw tokens keys s' v) :
    keys = rel.map Segment.key := by
  induction hat generalizing raw name p h input s keys with
  | here =>
      cases origin
      rfl
  | property kind held path _ ih =>
      obtain ⟨properties, required, u, role, declared, soundBelow, shown⟩ :=
        hd.property kind held path sound
      obtain ⟨members, rfl, -, -, below⟩ := full.group_members kind
      cases origin with
      | property role' declared' hw origin =>
          cases role.symm.trans role'
          cases declared.symm.trans declared'
          have fullBelow := below _ (mem_of_lookup hw) _ held shown.stands.name
          rw [List.map_cons, Segment.key, ih fullBelow shown soundBelow origin]
      | item role' _ _ _ => cases role.symm.trans role'
  | @item t item element n place i rel tokens kind held wrapped _ ih =>
      obtain ⟨items, role, shown⟩ := hd.item kind held wrapped
      obtain ⟨members, submitted, e, rfl, submits, he, rfl, fullBelow⟩ :=
        full.item_entry hd kind held wrapped
      have soundBelow := sound.item (Schema.items_of_repeated role)
      -- Both derivations name the place by its digits, so the token is abstracted first.
      generalize htokens : toString place :: tokens = ts at origin
      cases origin with
      | here => cases htokens
      | property role' _ _ _ => cases role.symm.trans role'
      | @item _ _ _ _ _ place' _ _ _ _ _ _ role' held' wraps origin =>
          cases role.symm.trans role'
          obtain ⟨hplace, rfl⟩ := List.cons.inj htokens
          obtain rfl := Pointer.toString_injective hplace
          obtain ⟨e', he', rfl, rfl, rfl⟩ := submits.of_place held' wraps
          cases he.symm.trans he'
          rw [List.map_cons, List.map_cons, Segment.key, Segment.key,
            ih fullBelow shown soundBelow origin]

end Tree

theorem isBlank_scalar {v : Json} (scalar : isScalar v = true) (filled : v ≠ .string "") :
    isBlank v = false := by
  cases v with
  | null | array | object => cases scalar
  | bool | number => rfl
  | string text =>
      rw [isBlank, String.isEmpty_eq_false_iff]
      exact fun h => filled (h ▸ rfl)

/-- What a widget submits is found in the prepared document at the pointer of the widget, cast
under the node of the widget. -/
theorem submitted_value_at_pointer {options : CompileOptions} {root : Path} {d : SchemaDocument}
    {h : Hint} {input : Option Json} {t : RepeatTable} {form : CompiledForm} {raw v : Json}
    {n : WidgetTree} (accepted : d.Accepted) (plain : d.root.Everywhere Schema.PlainNames)
    (reachable : t.Reachable) (hok : compileForm options root d h input t = .ok form)
    (full : Full form.tree raw) (hn : n ∈ form.tree.nodes)
    (field : n.widget.kind.isStructural = false) (group : n.widget.kind ≠ .group)
    (repeatable : n.widget.kind ≠ .repeatable) (submitted : submittedAt? root n.path raw = some v)
    (filled : v ≠ .string "") :
    ∃ q s, (PointerMap.ofTree form.tree root).pointer? n.path = some q ∧
      d.nodeAt? n.widget.propPath = some s ∧
        Pointer.lookup? q (prepare d raw) = some (cast s v) := by
  have layout := layout_of_compileForm accepted reachable hok
  obtain ⟨-, displays⟩ := compileForm_ok hok
  have sound := accepted.sound
  obtain ⟨rel, tokens, hat, pointer⟩ := PointerMap.pointer?_ofTree layout hn field
  rw [(hat.layout layout).path, submittedAt?_append] at submitted
  obtain ⟨s, h', route, fullHere, origin⟩ := full.origin displays sound hat submitted
  have scalar : isScalar v = true := by
    cases fullHere with
    | value _ _ scalar => exact scalar
    | group kind _ _ _ => exact absurd kind group
    | repeated kind _ _ _ => exact absurd kind repeatable
  have blank : isBlank (clean v) = false := by
    rw [clean_scalar scalar]
    exact isBlank_scalar scalar filled
  obtain ⟨-, resolved⟩ := origin.resolve? (full.shaped displays) sound plain blank
  have node : d.nodeAt? n.widget.propPath = some s :=
    displays.nodeAt?_propPath hat sound route
  refine ⟨Pointer.join tokens, s, pointer, node, ?_⟩
  rw [Pointer.lookup?, Pointer.tokens?_join, Option.bind_some, prepare, resolved,
    clean_scalar scalar]

section Numbers

private def numbersSchema : Json :=
  .object
    [("type", .string "object"),
      ("properties", .object
        [("a/b", .object
          [("type", .string "array"),
            ("items", .object [("type", .string "integer")])])])]

private def numbersDocument : SchemaDocument :=
  let number : Schema := ⟨[.integer], none, none, none, none, .scalar⟩
  let numbers : Schema := ⟨[.array], none, none, none, none, .array number⟩
  ⟨numbersSchema, [.object], none, none, none, none, .object [("a/b", numbers)] [] none⟩

/-- The first and the third number are left. -/
private def numbersTable : RepeatTable := RepeatTable.empty.set ⟨[], "a/b"⟩ ⟨[0, 2], 3, []⟩

private def numbersContext : Context := ⟨{}, [.property "form"]⟩

private def numbersPath : Path := [.property "form", .property "a/b"]

private def numbersWidget (name title : String) (p : Path) (kind : Widget.Kind) : Widget where
  name
  title
  kind
  path := p
  propPath := numbersContext.schemaPath p

private def numberRow (i : Nat) (title : String) : Row :=
  let p := numbersPath ++ [.index i]
  let w := numbersWidget (toString i) title (p ++ [.wrapper]) .integer
  let item := numbersWidget (toString i) title p .removableItem
  ⟨i, .node w [], .node item [.node w [], numbersContext.removeControl p i]⟩

private def numberRows : List Row := [numberRow 0 "A/b (value 1)", numberRow 2 "A/b (value 3)"]

private def numbersField : Widget :=
  { numbersWidget "a/b" "A/b" numbersPath .repeatable with cardinality := some ⟨some 2, true⟩ }

private def numbersTree : WidgetTree :=
  .node (numbersWidget "form" "Form" [.property "form"] .group)
    [.node numbersField (numberRows.map Row.item ++ [numbersContext.addControl numbersPath])]

private def numberEntry (i : Nat) (text : String) : Entered :=
  let v : Json := .string text
  ⟨i, v, .object [(Segment.wrapperKey, v), (Control.remove.key, .string "Remove item")]⟩

private def numberEntries : List Entered := [numberEntry 0 "", numberEntry 2 "7"]

private def numbersSubmitted : List (String × Json) :=
  (numberEntries.map fun e => (toString e.index, e.wrapper)) ++
    [(Control.addMore.key, .string "Append an item")]

private def numbersRaw : Json := .object [("a/b", .object numbersSubmitted)]

private theorem numbers_full : Full numbersTree numbersRaw := by
  have submits : Submits numbersSubmitted numberEntries := by
    refine ⟨by decide, by decide, ?_⟩
    intro e he
    simp only [numberEntries, List.mem_cons, List.not_mem_nil, or_false] at he
    obtain rfl | rfl := he <;> exact .first _
  have full : Full (.node numbersField
      (numberRows.map Row.item ++ [numbersContext.addControl numbersPath]))
      (.object numbersSubmitted) := by
    refine (full_rows_iff (p := numbersPath) rfl ?_ ?_ ?_).2
      ⟨numbersSubmitted, numberEntries, rfl, submits, rfl, ?_⟩
    · intro r hr
      simp only [numberRows, List.mem_cons, List.not_mem_nil, or_false] at hr
      obtain rfl | rfl := hr <;>
        exact ⟨rfl, rfl, rfl, _, Compile.isControl_removeControl _ _ _, rfl⟩
    · exact Compile.isControl_addControl _ _
    · intro r hr
      simp only [numberRows, List.mem_cons, List.not_mem_nil, or_false] at hr
      obtain rfl | rfl := hr <;> rfl
    · intro e he r hr _
      simp only [numberEntries, List.mem_cons, List.not_mem_nil, or_false] at he
      simp only [numberRows, List.mem_cons, List.not_mem_nil, or_false] at hr
      obtain rfl | rfl := he <;> obtain rfl | rfl := hr <;> exact .value nofun nofun rfl
  refine .group rfl (List.nodup_singleton _) ?_ ?_
  · exact List.forall_mem_singleton.2 (List.mem_singleton.2 rfl)
  · refine List.forall_mem_singleton.2 fun child held _ => ?_
    obtain rfl := List.mem_singleton.1 held
    exact full

theorem submitted_number_at_pointer : ∃ form n,
    numbersDocument.Accepted ∧ numbersDocument.root.Everywhere Schema.PlainNames ∧
      numbersTable.Reachable ∧
      compileForm {} [.property "form"] numbersDocument {} none numbersTable = .ok form ∧
      Full form.tree numbersRaw ∧ n ∈ form.tree.nodes ∧
      submittedAt? [.property "form"] n.path numbersRaw =
        some (.string "7") ∧
      ∃ q s, (PointerMap.ofTree form.tree [.property "form"]).pointer? n.path = some q ∧
        numbersDocument.nodeAt? n.widget.propPath = some s ∧
          Pointer.lookup? q (prepare numbersDocument numbersRaw) =
            some (cast s (.string "7")) := by
  have distinct : numbersSchema.Distinct := by simp [numbersSchema]
  have accepted : numbersDocument.Accepted := ⟨32, numbersSchema, distinct, rfl⟩
  have reachable : numbersTable.Reachable := .set _ (by decide) .empty
  have plain : numbersDocument.root.Everywhere Schema.PlainNames :=
    .of_object (List.forall_mem_singleton.2 (by decide)) rfl
      (List.forall_mem_singleton.2 (.of_array nofun rfl (.of_scalar nofun rfl)))
  have tree : (compileForm {} [.property "form"] numbersDocument {} none numbersTable).map
      (fun form => form.tree) = .ok numbersTree := by
    rw [numbersTable, RepeatTable.set_of_inOrder _ _ (by decide)]
    rfl
  cases hok : compileForm {} [.property "form"] numbersDocument {} none numbersTable with
  | error e => rw [hok] at tree; cases tree
  | ok form =>
      rw [hok] at tree
      obtain ⟨built, table⟩ := form
      obtain rfl : built = numbersTree := Except.ok.inj tree
      have inside : (numberRow 2 "A/b (value 3)").element ∈ numbersTree.nodes := by decide
      have submitted : submittedAt? [.property "form"] (numberRow 2 "A/b (value 3)").element.path
          numbersRaw = some (.string "7") := rfl
      exact ⟨_, _, accepted, plain, reachable, rfl, numbers_full, inside, submitted,
        submitted_value_at_pointer accepted plain reachable hok numbers_full inside rfl nofun nofun
          submitted (by decide)⟩

end Numbers

end Submission
end FormTree
