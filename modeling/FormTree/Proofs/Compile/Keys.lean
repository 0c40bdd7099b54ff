import FormTree.Proofs.Compile.Visits

/-!
Keys of repeated fields. The names on the way to a field lead to no other one, and
they can be read off its key, although the key does not say whether a name is the
index of an item. So the fields of a form have different keys.
-/

namespace FormTree

open WidgetTree (At Layout)

theorem Path.withoutSynthetic_idem (p : Path) :
    p.withoutSynthetic.withoutSynthetic = p.withoutSynthetic := by
  simp only [withoutSynthetic, List.filter_filter, Bool.and_self]

/-- A key keeps all names of its path. -/
theorem FieldKey.names_of_ofPath? {p : Path} {k : FieldKey} (h : FieldKey.ofPath? p = some k) :
    p.withoutSynthetic.map Segment.key = k.parents.map Segment.key ++ [k.field] := by
  obtain ⟨s, hs, rfl⟩ := Option.map_eq_some_iff.1 h
  obtain ⟨front, hfront⟩ := List.getLast?_eq_some_iff.1 hs
  rw [hfront, List.dropLast_concat, List.map_append]
  rfl

theorem FieldKey.exists_ofPath? {p : Path} (h : p.withoutSynthetic ≠ []) :
    ∃ k, FieldKey.ofPath? p = some k := by
  exact ⟨_, Option.map_eq_some_iff.2 ⟨_, List.getLast?_eq_some_getLast h, rfl⟩⟩

namespace WidgetTree

/-- The names on the way, with the indices of items, lead to no more than one field. -/
theorem At.eq_of_names {p rel rel' : Path} {t n n' : WidgetTree} {tokens tokens' : List String}
    (h : At t rel tokens n) (hl : Layout p t) (h' : At t rel' tokens' n')
    (same : rel.withoutSynthetic.map Segment.key = rel'.withoutSynthetic.map Segment.key) :
    n = n' := by
  induction h generalizing p rel' tokens' with
  | here =>
      cases h' with
      | here => rfl
      | property _ _ _ _ | item _ _ _ _ => cases same
  | @property t child _ name rel _ kind held path below ih =>
      cases h' with
      | here => cases same
      | @property _ child' _ name' rel' _ _ held' path' below' =>
          obtain ⟨rfl, rest⟩ := List.cons.inj same
          have inside := mem_nodes_iff.2 (.inr ⟨child, held, mem_nodes_self child⟩)
          have inside' := mem_nodes_iff.2 (.inr ⟨child', held', mem_nodes_self child'⟩)
          obtain rfl := hl.placed.eq_of_path inside inside' (path.trans path'.symm)
          exact ih (hl.child kind held path) below' rest
      | item kind' _ _ _ => exact absurd (kind.symm.trans kind') nofun
  | @item t item element _ place i rel _ kind held wrapped below ih =>
      cases h' with
      | here => cases same
      | property kind' _ _ _ => exact absurd (kind.symm.trans kind') nofun
      | @item _ item' element' _ place' i' rel' _ _ held' wrapped' below' =>
          obtain ⟨hi, rest⟩ := List.cons.inj same
          obtain rfl := Pointer.toString_injective hi
          have child := List.mem_of_getElem? held
          have child' := List.mem_of_getElem? held'
          have inside := mem_nodes_iff.2 (.inr ⟨item, child, mem_nodes_self item⟩)
          have inside' := mem_nodes_iff.2 (.inr ⟨item', child', mem_nodes_self item'⟩)
          obtain rfl := hl.placed.eq_of_path inside inside' (wrapped.path.trans wrapped'.path.symm)
          obtain ⟨-, rfl⟩ := wrapped.unique wrapped'
          exact ih (hl.element kind child wrapped) below' rest

end WidgetTree

namespace Compile

/-- A field displayed in a form has the names on the way to it in its path in the schema. -/
private theorem names_propPath {c : Context} {T : RepeatTable} {name : String} {h : Hint}
    {input : Option Json} {s : Schema} {tree n : WidgetTree} {rel : Path} {tokens : List String}
    (displays : Displays c T name c.root h input s tree) (sound : s.Everywhere Schema.Sound)
    (hat : At tree rel tokens n) :
    n.widget.propPath.withoutSynthetic.map Segment.key = rel.withoutSynthetic.map Segment.key := by
  obtain ⟨_, _, _, _, _, _, shown⟩ := displays.field hat sound
  rw [shown.stands.propPath, Context.schemaPath, Path.relativeTo_append,
    Path.withoutSynthetic_idem]

end Compile

section Form

variable {options : CompileOptions} {root : Path} {d : SchemaDocument} {h : Hint}
  {input : Option Json} {t : RepeatTable} {form : CompiledForm}

/-- The key of a repeated field belongs to no other field of the form. -/
theorem eq_of_key (accepted : d.Accepted) (reachable : t.Reachable)
    (hok : compileForm options root d h input t = .ok form) {rel rel' : Path}
    {tokens tokens' : List String} {n n' : WidgetTree} (hat : At form.tree rel tokens n)
    (hat' : At form.tree rel' tokens' n') {k : FieldKey}
    (key : FieldKey.ofPath? n.widget.propPath = some k)
    (key' : FieldKey.ofPath? n'.widget.propPath = some k) : n = n' := by
  have layout := layout_of_compileForm accepted reachable hok
  obtain ⟨-, displays⟩ := compileForm_ok hok
  apply hat.eq_of_names layout hat'
  rw [← Compile.names_propPath displays accepted.sound hat,
    ← Compile.names_propPath displays accepted.sound hat', FieldKey.names_of_ofPath? key,
    FieldKey.names_of_ofPath? key']

/-- Each repeated field of a form is visited once, under a key of its own. -/
theorem visits_of_compileForm (accepted : d.Accepted) (reachable : t.Reachable)
    (hok : compileForm options root d h input t = .ok form) :
    ∃ visits, form.table = t.visitAll visits ∧ (visits.map Visit.key).Nodup ∧
      Compile.Meets form.tree input form.tree.nodes visits ∧
        ∀ n ∈ form.tree.nodes, n.widget.kind = .repeatable →
          ∃ v ∈ visits, v.location = n.path ∧ FieldKey.ofPath? n.widget.propPath = some v.key := by
  have placed := (layout_of_compileForm accepted reachable hok).placed
  obtain ⟨⟨tree, table⟩, hnode, heq⟩ := bind_eq_ok.1 hok
  obtain ⟨visits, rfl, meets⟩ := Compile.visits_of_node hnode
  cases heq
  refine ⟨visits, rfl, ?_, meets, ?_⟩
  · have locations : (visits.map Visit.location).Nodup := by
      rw [meets.locations]
      exact placed.nodup.sublist (List.filter_sublist.map _)
    refine (List.Nodup.of_map _ locations).map_on ?_
    intro v hv v' hv' same
    obtain ⟨_, _, n, _, hat, _, _, path, key, _⟩ := meets.reached v hv
    obtain ⟨_, _, n', _, hat', _, _, path', key', _⟩ := meets.reached v' hv'
    obtain rfl := eq_of_key accepted reachable hok hat hat' key (same ▸ key')
    exact List.inj_on_of_nodup_map locations hv hv' (path.symm.trans path')
  · intro n hn kind
    have inside : n.path ∈ visits.map Visit.location := by
      rw [meets.locations]
      exact List.mem_map_of_mem (List.mem_filter.2 ⟨hn, WidgetTree.isRepeated_iff.2 kind⟩)
    obtain ⟨v, hv, location⟩ := List.mem_map.1 inside
    obtain ⟨_, _, n', _, hat, _, _, path, key, _⟩ := meets.reached v hv
    obtain rfl := placed.eq_of_path hat.mem_nodes hn (path.trans location)
    exact ⟨v, hv, location, key⟩

/-- Repeated fields with the same key are the same. -/
theorem repeated_eq_of_key (accepted : d.Accepted) (reachable : t.Reachable)
    (hok : compileForm options root d h input t = .ok form) {n n' : WidgetTree}
    (hn : n ∈ form.tree.nodes) (hn' : n' ∈ form.tree.nodes) (kind : n.widget.kind = .repeatable)
    (kind' : n'.widget.kind = .repeatable)
    (same : FieldKey.ofPath? n.widget.propPath = FieldKey.ofPath? n'.widget.propPath) : n = n' := by
  obtain ⟨visits, -, nodup, -, visited⟩ := visits_of_compileForm accepted reachable hok
  obtain ⟨v, hv, location, key⟩ := visited n hn kind
  obtain ⟨v', hv', location', key'⟩ := visited n' hn' kind'
  rw [key, key'] at same
  obtain rfl := List.inj_on_of_nodup_map nodup hv hv' (Option.some.inj same)
  have placed := (layout_of_compileForm accepted reachable hok).placed
  exact placed.eq_of_path hn hn' (location.symm.trans location')

/-- A repeated field has a way to it, and a key made from where it is. -/
theorem reached_of_compileForm (accepted : d.Accepted) (reachable : t.Reachable)
    (hok : compileForm options root d h input t = .ok form) {n : WidgetTree}
    (hn : n ∈ form.tree.nodes) (kind : n.widget.kind = .repeatable) :
    ∃ rel tokens input', At form.tree rel tokens n ∧ Compile.Inputs input rel tokens input' ∧
      n.widget.propPath = Path.relativeTo root n.path := by
  have placed := (layout_of_compileForm accepted reachable hok).placed
  obtain ⟨-, displays⟩ := compileForm_ok hok
  obtain ⟨visits, -, -, meets, visited⟩ := visits_of_compileForm accepted reachable hok
  obtain ⟨v, hv, location, -⟩ := visited n hn kind
  obtain ⟨rel, tokens, n', input', hat, inputs, -, path, -⟩ := meets.reached v hv
  obtain rfl := placed.eq_of_path hat.mem_nodes hn (path.trans location)
  obtain ⟨_, _, _, _, _, _, shown⟩ := displays.field hat accepted.sound
  refine ⟨rel, tokens, input', hat, inputs, shown.stands.propPath.trans ?_⟩
  rw [WidgetTree.path, shown.stands.path]
  rfl

end Form

/-- Rows of texts. Each row is a repeated field itself, named by the index of its item. -/
def rowsOfTexts : SchemaDocument :=
  let text : Schema := ⟨[.string], none, none, none, none, .scalar⟩
  let row : Schema := ⟨[.array], none, none, none, none, .array text⟩
  let rows : Schema := ⟨[.array], none, none, none, none, .array row⟩
  { raw := .object
      [("type", .string "object"),
        ("properties", .object
          [("rows", .object
            [("type", .string "array"),
              ("items", .object
                [("type", .string "array"),
                  ("items", .object [("type", .string "string")])])])])]
    root := ⟨[.object], none, none, none, none, .object [("rows", rows)] [] none⟩ }

theorem rowsOfTexts_accepted : rowsOfTexts.Accepted := by
  refine ⟨32, rowsOfTexts.raw, ?_, rfl⟩
  simp [rowsOfTexts]

namespace FieldKey

def rows : FieldKey := ⟨[], "rows"⟩

/-- The field of the texts in a row. -/
def row (i : Nat) : FieldKey := ⟨[.property "rows"], toString i⟩

end FieldKey

abbrev compileRows (input : Option Json) (t : RepeatTable) : Except CompileError CompiledForm :=
  compileForm {} [.property "form"] rowsOfTexts {} input t

/-- Texts entered in two rows. -/
def listsOfTexts : Json :=
  .object [("rows", .array [.array [.string "a", .string "b"], .array [.string "c"]])]

/-- Two rows, with a gap in their indices. -/
def RepeatTable.twoRows : RepeatTable := ⟨SortedMap.empty.insert .rows ⟨[0, 2], 3, []⟩, false⟩

theorem RepeatTable.twoRows_reachable : twoRows.Reachable := by
  have same : RepeatTable.empty.set .rows ⟨[0, 2], 3, []⟩ = twoRows :=
    set_of_inOrder _ _ (by decide)
  exact same ▸ .set .rows (by decide) .empty

end FormTree
