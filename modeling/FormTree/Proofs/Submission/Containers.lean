import FormTree.Proofs.Compile.Keys
import FormTree.Proofs.Compile.Presentation
import FormTree.Proofs.Submission.Full

/-!
The containers of a prepared document. Cleaning sees keys and no schema. So a
group is an object there, and a repeated field a list, as long as no group at or
above it is submitted under nothing but digits, and as long as the field is not
an item without items of its own.
-/

namespace FormTree

/-- No property is named like the add control. -/
def Schema.NamesNoAdd (s : Schema) : Prop := Control.addMore.key ∉ s.names

instance (s : Schema) : Decidable s.NamesNoAdd :=
  inferInstanceAs (Decidable (Control.addMore.key ∉ s.names))

namespace Submission

open Compile (Context Displays)
open WidgetTree (At)

/-- On the way to a field, no group is submitted under nothing but digits. -/
def NamedAlong (t : WidgetTree) (rel : Path) (raw : Json) : Prop :=
  ∀ rel' tokens g, At t rel' tokens g → rel' <+: rel → g.widget.kind = .group → ∀ members,
    entered? (rel'.map Segment.key) raw = some (.object members) → ¬OnlyIndices members

section Tree

variable {c : Context} {T : RepeatTable} {name : String} {p : Path} {h : Hint}
  {input : Option Json} {s : Schema} {t n child : WidgetTree} {raw x : Json}
  {rel : Path} {tokens : List String} {members : List (String × Json)}

theorem NamedAlong.property {key : String} {u : Json}
    (named : NamedAlong t (.property key :: rel) (.object members))
    (kind : t.widget.kind = .group) (held : child ∈ t.children)
    (path : child.path = t.path ++ [.property key]) (entry : members.lookup key = some u) :
    NamedAlong child rel u := by
  intro rel' tokens g hat above group ms entered
  refine named (.property key :: rel') (key :: tokens) g (.property kind held path hat)
    (List.cons_prefix_cons.2 ⟨rfl, above⟩) group ms ?_
  rw [List.map_cons, Segment.key, entered?, Json.member?, entry, Option.bind_some]
  exact entered

theorem NamedAlong.item {item element : WidgetTree} {place : Nat} {e : Entered}
    {submitted : List Entered}
    (named : NamedAlong t (.index e.index :: .wrapper :: rel) (.object members))
    (kind : t.widget.kind = .repeatable) (held : t.children[place]? = some item)
    (wrapped : WidgetTree.IsItem t.path e.index element item) (submits : Submits members submitted)
    (inside : e ∈ submitted) : NamedAlong element rel e.value := by
  intro rel' tokens g hat above group ms entered
  refine named (.index e.index :: .wrapper :: rel') (toString place :: tokens) g
    (.item kind held wrapped hat) ?_ group ms ?_
  · exact List.cons_prefix_cons.2 ⟨rfl, List.cons_prefix_cons.2 ⟨rfl, above⟩⟩
  · rw [List.map_cons, List.map_cons, Segment.key, Segment.key, entered?, Json.member?,
      submits.lookup inside, Option.bind_some, entered?, (submits.wrapped e inside).member?,
      Option.bind_some]
    exact entered

private theorem role_of_group (hd : Displays c T name p h input s t)
    (kind : t.widget.kind = .group) :
    ∃ properties required, s.role h = .group properties required := by
  cases hd with
  | single _ _ shows => exact absurd kind shows.not_container.1
  | group role _ _ _ _ => exact ⟨_, _, role⟩
  | repeated _ _ kind' _ _ _ _ _ => exact absurd (kind.symm.trans kind') nofun

private theorem role_of_repeatable (hd : Displays c T name p h input s t)
    (kind : t.widget.kind = .repeatable) : ∃ items, s.role h = .repeated items := by
  cases hd with
  | single _ _ shows => exact absurd kind shows.not_container.2
  | group _ _ kind' _ _ => exact absurd (kind.symm.trans kind') nofun
  | repeated role _ _ _ _ _ _ _ => exact ⟨_, role⟩

/-- The object of a group that is not submitted under digits is cleaned entry by entry. -/
private theorem Full.cleaned_group (full : Full t (.object members))
    (hd : Displays c T name p h input s t) (kind : t.widget.kind = .group)
    (names : s.NamesNoAdd) (named : NamedAlong t rel (.object members)) :
    clean (.object members) = .object (cleanEntries members) ∧ entries members = members := by
  obtain ⟨properties, required, role⟩ := role_of_group hd kind
  obtain ⟨_, heq, -, declared, -⟩ := (full.shaped hd).group_members role
  cases heq
  have here : ¬OnlyIndices members := named [] [] t (.here t) List.nil_prefix kind members rfl
  refine clean_named (fun m hm label => names ?_) here
  rw [Schema.names, Schema.properties_of_group role, ← label]
  exact declared m hm

private theorem Full.array_of_repeatable (full : Full t raw) (hd : Displays c T name p h input s t)
    (sound : s.Everywhere Schema.Sound) (kind : t.widget.kind = .repeatable)
    (filled : t.removableItems = [] → isBlank (clean raw) = false) :
    ∃ items, cast s (clean raw) = .array items := by
  obtain ⟨items, role⟩ := role_of_repeatable hd kind
  have hitems := Schema.items_of_repeated role
  cases full with
  | value _ repeatable _ => exact absurd kind repeatable
  | group kind' _ _ _ => exact absurd (kind.symm.trans kind') nofun
  | @repeated _ members submitted _ submits order _ =>
      by_cases nonempty : submitted = []
      · subst nonempty
        have blank := filled (List.map_eq_nil_iff.1 order)
        rw [submits.clean_nil] at blank
        cases blank
      · rw [submits.clean_eq nonempty, cast_array (sound.here.array _ hitems) hitems]
        exact ⟨_, rfl⟩

/-- A value at the pointer of a container has the shape of the container. -/
private theorem Full.container (full : Full t raw) (hd : Displays c T name p h input s t)
    (sound : s.Everywhere Schema.Sound) (names : s.Everywhere Schema.NamesNoAdd)
    (hat : At t rel tokens n) (named : NamedAlong t rel raw)
    (found : Pointer.resolve? tokens (cast s (clean raw)) = some x) :
    (n.widget.kind = .group → ∃ members, x = .object members) ∧
      (n.widget.kind = .repeatable →
        (n.removableItems = [] →
          rel.getLast? ≠ some .wrapper ∧ (rel = [] → isBlank (clean raw) = false)) →
        ∃ items, x = .array items) := by
  -- What a group holds is never blank. So only at the start, and right under an item, can there
  -- be a repeated field without items.
  induction hat generalizing raw name p h input s with
  | here t =>
      cases found
      constructor
      · intro kind
        obtain ⟨properties, required, role⟩ := role_of_group hd kind
        obtain ⟨members, rfl, -⟩ := full.group_members kind
        obtain ⟨cleaned, -⟩ := full.cleaned_group hd kind names.here named
        have hproperties := Schema.properties_of_group role
        exact ⟨_, by rw [cleaned, cast_object (sound.here.object _ hproperties)]⟩
      · exact fun kind filled =>
          full.array_of_repeatable hd sound kind fun empty => (filled empty).2 rfl
  | @property t child n key rel tokens kind held path _ ih =>
      obtain ⟨members, rfl, nodup, -, below⟩ := full.group_members kind
      obtain ⟨properties, required, s', role, declared, soundBelow, shown⟩ :=
        hd.property kind held path sound
      have hproperties := Schema.properties_of_group role
      obtain ⟨u, hu, notBlank, found⟩ := resolve?_property (sound.here.object _ hproperties)
        hproperties declared (full.cleaned_group hd kind names.here named) found
      obtain ⟨group, repeatable⟩ := ih (below _ hu child held shown.stands.name) shown soundBelow
        (names.property hproperties (mem_of_lookup declared))
        (named.property kind held path (lookup_of_mem nodup hu)) found
      refine ⟨group, fun kind filled => repeatable kind fun empty => ⟨?_, fun _ => notBlank⟩⟩
      have last := (filled empty).1
      cases rel with
      | nil => nofun
      | cons segment rel => rwa [List.getLast?_cons_cons] at last
  | @item t item element n place i rel tokens kind held wrapped _ ih =>
      obtain ⟨items, role, shown⟩ := hd.item kind held wrapped
      obtain ⟨members, submitted, e, rfl, submits, he, rfl, fullBelow⟩ :=
        full.item_entry hd kind held wrapped
      have hitems := Schema.items_of_repeated role
      have inside := List.mem_of_getElem? he
      obtain ⟨e', he', found⟩ := resolve?_item (sound.here.array _ hitems) hitems submits found
      cases he.symm.trans he'
      obtain ⟨group, repeatable⟩ := ih fullBelow shown (sound.item hitems) (names.item hitems)
        (named.item kind held wrapped submits inside) found
      refine ⟨group, fun kind filled => repeatable kind fun empty => ?_⟩
      have last := (filled empty).1
      cases rel with
      | nil => exact absurd rfl last
      | cons segment rel =>
          rw [List.getLast?_cons_cons, List.getLast?_cons_cons] at last
          exact ⟨last, nofun⟩

end Tree

/-- The whole form is no repeated field. -/
private theorem not_repeatable_root {options : CompileOptions} {root : Path} {T : RepeatTable}
    {name : String} {h : Hint} {input : Option Json} {s : Schema} {t : WidgetTree}
    (hd : Displays ⟨options, root⟩ T name root h input s t) : t.widget.kind ≠ .repeatable := by
  intro kind
  cases hd with
  | single _ _ shows => exact shows.not_container.2 kind
  | group _ _ kind' _ _ => exact absurd (kind.symm.trans kind') nofun
  | repeated _ _ _ field _ _ _ _ =>
      have whole := Path.relativeTo_append root []
      rw [List.append_nil] at whole
      rw [Context.schemaPath, whole] at field
      cases field

/-- In what is prepared of a full submission, a group is an object and a repeated field is a list,
where no group at or above them is submitted under nothing but digits. Of a repeated field without
items this is said where it is not an item itself. -/
theorem container_shapes {options : CompileOptions} {root : Path} {d : SchemaDocument} {h : Hint}
    {input : Option Json} {t : RepeatTable} {form : CompiledForm} {raw x : Json} {n : WidgetTree}
    {q : String} (accepted : d.Accepted) (names : d.root.Everywhere Schema.NamesNoAdd)
    (reachable : t.Reachable) (hok : compileForm options root d h input t = .ok form)
    (full : Full form.tree raw) (hn : n ∈ form.tree.nodes)
    (named : ∀ g ∈ form.tree.nodes, g.widget.kind = .group → g.path <+: n.path → ∀ members,
      submittedAt? root g.path raw = some (.object members) → ¬OnlyIndices members)
    (pointer : (PointerMap.ofTree form.tree root).pointer? n.path = some q)
    (found : Pointer.lookup? q (prepare d raw) = some x) :
    (n.widget.kind = .group → ∃ members, x = .object members) ∧
      (n.widget.kind = .repeatable →
        (n.removableItems = [] → n.path.getLast? ≠ some .wrapper) → ∃ items, x = .array items) := by
  have layout := layout_of_compileForm accepted reachable hok
  obtain ⟨-, displays⟩ := compileForm_ok hok
  obtain ⟨rel, tokens, hat, rfl⟩ := PointerMap.exists_at_of_pointer? layout hn pointer
  have path : n.path = root ++ rel := (hat.layout layout).path
  rw [Pointer.lookup?, Pointer.tokens?_join, Option.bind_some, prepare] at found
  have along : NamedAlong form.tree rel raw := by
    intro rel' tokens' g hat' above group members entered
    have place := (hat'.layout layout).path
    refine named g hat'.mem_nodes group ?_ members ?_
    · rw [place, path]
      exact (List.prefix_append_right_inj root).2 above
    · rw [place, submittedAt?_append]
      exact entered
  obtain ⟨group, repeatable⟩ := full.container displays accepted.sound names hat along found
  refine ⟨group, fun kind stays => repeatable kind fun empty => ⟨?_, ?_⟩⟩
  · intro last
    apply stays empty
    rw [path, List.getLast?_append, last]
    rfl
  · rintro rfl
    cases hat
    exact absurd kind (not_repeatable_root displays)

section Mixed

private def textNode : Schema := ⟨[.string], none, none, none, none, .scalar⟩

private def textsNode : Schema := ⟨[.array], none, none, none, none, .array textNode⟩

private def rowsNode : Schema := ⟨[.array], none, none, none, none, .array textsNode⟩

private def groupNode (properties : List (String × Schema)) : Schema :=
  ⟨[.object], none, none, none, none, .object properties [] none⟩

private def innerNode : Schema := groupNode [("a", textNode)]

/-- Two properties whose names are digits. -/
private def codesNode : Schema := groupNode [("0", textsNode), ("1", innerNode)]

private def mixedSchema : Json :=
  let text : Json := .object [("type", .string "string")]
  let listOf (items : Json) : Json := .object [("type", .string "array"), ("items", items)]
  let groupOf (properties : List (String × Json)) : Json :=
    .object [("type", .string "object"), ("properties", .object properties)]
  groupOf [("codes", groupOf [("0", listOf text), ("1", groupOf [("a", text)])]),
    ("rows", listOf (listOf text))]

private def mixedDocument : SchemaDocument :=
  ⟨mixedSchema, groupNode [("codes", codesNode), ("rows", rowsNode)]⟩

/-- One text under the first code, and two rows, of which the first is empty. -/
private def mixedInput : Json :=
  .object [("codes", .object [("0", .array [.string "t"])]),
    ("rows", .array [.array [], .array [.string "y"]])]

private def compileMixed : Except CompileError CompiledForm :=
  compileForm {} [] mixedDocument {} (some mixedInput) .empty

private def enteredAt (i : Nat) (v : Json) : Entered :=
  ⟨i, v, .object [(Segment.wrapperKey, v), (Control.remove.key, .string "Remove item")]⟩

/-- What the widgets of a repeated field submit. -/
private def submission (items : List Entered) : List (String × Json) :=
  (items.map fun e => (toString e.index, e.wrapper)) ++
    [(Control.addMore.key, .string "Append an item")]

private def textsEntered (texts : List String) : List Entered :=
  texts.zipIdx.map fun e => enteredAt e.2 (.string e.1)

private def rowsEntered : List Entered :=
  [enteredAt 0 (.object (submission (textsEntered []))),
    enteredAt 1 (.object (submission (textsEntered ["y"])))]

private def mixedMembers : List (String × Json) :=
  [("codes", .object [("1", .object [("a", .string "x")]),
      ("0", .object (submission (textsEntered ["t"])))]),
    ("rows", .object (submission rowsEntered))]

private def mixedRaw : Json := .object mixedMembers

private theorem prepare_mixed : prepare mixedDocument mixedRaw = .object
    [("codes", .array [.object [("a", .string "x")], .array [.string "t"]]),
      ("rows", .array [.object [], .array [.string "y"]])] := by decide +kernel

/-- The containers of the form with their paths and pointers. -/
private def mixedContainers : List (Widget.Kind × Path × String) :=
  [(.group, [], ""), (.group, [.property "codes"], "/codes"),
    (.repeatable, [.property "codes", .property "0"], "/codes/0"),
    (.group, [.property "codes", .property "1"], "/codes/1"),
    (.repeatable, [.property "rows"], "/rows"),
    (.repeatable, [.property "rows", .index 0, .wrapper], "/rows/0"),
    (.repeatable, [.property "rows", .index 1, .wrapper], "/rows/1")]

private def containers (form : CompiledForm) : List (Widget.Kind × Path × Option String) :=
  (form.tree.nodes.filter fun n => n.widget.kind = .group ∨ n.widget.kind = .repeatable).map
    fun n => (n.widget.kind, n.path, (PointerMap.ofTree form.tree []).pointer? n.path)

private theorem map_containers : compileMixed.map containers =
    .ok (mixedContainers.map fun c => (c.1, c.2.1, some c.2.2)) := by decide +kernel

private theorem containers_mixed {form : CompiledForm} (hok : compileMixed = .ok form) :
    containers form = mixedContainers.map fun c => (c.1, c.2.1, some c.2.2) := by
  have known := map_containers
  rw [hok] at known
  exact Except.ok.inj known

private theorem mixed_indices : compileMixed.map (fun form =>
    [⟨[.property "codes"], "0"⟩, .rows, .row 0, .row 1].map form.table.indices) =
    .ok [[0], [0, 1], [], [0]] := by decide +kernel

private theorem submits_submission {items : List Entered}
    (indices : (items.map Entered.index).Nodup) (wrapped : ∀ e ∈ items, Wraps e.value e.wrapper) :
    Submits (submission items) items := by
  have keys : (submission items).map Prod.fst =
      (items.map Entered.index).map (toString : Nat → String) ++ [Control.addMore.key] := by
    rw [submission, List.map_append, List.map_map, List.map_map]
    rfl
  refine ⟨?_, ?_, wrapped⟩
  · rw [keys, List.nodup_append]
    refine ⟨indices.map fun _ _ => Pointer.toString_injective, List.nodup_singleton _, ?_⟩
    rintro key hkey label hlabel rfl
    obtain ⟨i, -, rfl⟩ := List.mem_map.1 hkey
    have other := isAddLabel_toString i (.string "")
    rw [isAddLabel, List.mem_singleton.1 hlabel] at other
    cases other
  · rw [entries, submission, List.filter_append, List.filter_eq_self.2]
    · exact List.append_nil _
    · intro m hm
      obtain ⟨e, -, rfl⟩ := List.mem_map.1 hm
      rw [isAddLabel_toString]
      rfl

variable {T : RepeatTable} {name : String} {p : Path} {h : Hint} {input : Option Json}
  {t : WidgetTree}

private theorem texts_full {key : FieldKey} {texts : List String}
    (hd : Displays ⟨{}, []⟩ T name p h input textsNode t)
    (role : textsNode.role h = .repeated textNode) (single : textNode.role h.item = .single)
    (field : FieldKey.ofPath? (Path.relativeTo [] p) = some key)
    (indices : T.indices key = List.range texts.length) :
    Full t (.object (submission (textsEntered texts))) := by
  have places : (textsEntered texts).map Entered.index = List.range texts.length := by
    rw [textsEntered, List.map_map]
    exact (List.zipIdx_map_snd 0 texts).trans List.range_eq_range'.symm
  have submits : Submits (submission (textsEntered texts)) (textsEntered texts) := by
    refine submits_submission (places ▸ List.nodup_range) ?_
    intro e he
    obtain ⟨_, -, rfl⟩ := List.mem_map.1 he
    exact .first _
  refine full_of_repeated hd role field submits (indices.trans places.symm) ?_
  intro e he _ element shown
  obtain ⟨_, -, rfl⟩ := List.mem_map.1 he
  exact full_of_single shown single rfl

private theorem codes_full (hd : Displays ⟨{}, []⟩ T name [.property "codes"] h input codesNode t)
    (hints : h = ({} : Hint).child "codes")
    (indices : T.indices ⟨[.property "codes"], "0"⟩ = [0]) :
    Full t (.object [("1", .object [("a", .string "x")]),
      ("0", .object (submission (textsEntered ["t"])))]) := by
  subst hints
  refine full_of_group hd rfl (by decide) (by decide) (List.forall_mem_cons.2
    ⟨fun s' hs' child shown => ?_, List.forall_mem_singleton.2 fun s' hs' child shown => ?_⟩)
  · obtain rfl : s' = innerNode := by simpa using hs'
    refine full_of_group shown rfl (by decide) (by decide) (List.forall_mem_singleton.2 ?_)
    intro s' hs' child shown
    obtain rfl : s' = textNode := by simpa using hs'
    exact full_of_single shown rfl rfl
  · obtain rfl : s' = textsNode := by simpa using hs'
    exact texts_full shown rfl rfl rfl indices

private theorem rows_full (hd : Displays ⟨{}, []⟩ T name [.property "rows"] h input rowsNode t)
    (hints : h = ({} : Hint).child "rows") (indices : T.indices .rows = [0, 1])
    (first : T.indices (.row 0) = []) (second : T.indices (.row 1) = [0]) :
    Full t (.object (submission rowsEntered)) := by
  subst hints
  have submits : Submits (submission rowsEntered) rowsEntered :=
    submits_submission (by decide) (List.forall_mem_cons.2
      ⟨.first _, List.forall_mem_singleton.2 (.first _)⟩)
  refine full_of_repeated hd rfl rfl submits indices (List.forall_mem_cons.2
    ⟨fun _ element shown => ?_, List.forall_mem_singleton.2 fun _ element shown => ?_⟩)
  · exact texts_full shown rfl rfl rfl first
  · exact texts_full shown rfl rfl rfl second

private theorem mixed_full {form : CompiledForm} (hok : compileMixed = .ok form) :
    Full form.tree mixedRaw := by
  have indices := mixed_indices
  rw [hok] at indices
  obtain ⟨codes, indices⟩ := List.cons.inj (Except.ok.inj indices)
  obtain ⟨rows, indices⟩ := List.cons.inj indices
  obtain ⟨first, indices⟩ := List.cons.inj indices
  obtain ⟨second, -⟩ := List.cons.inj indices
  obtain ⟨-, hd⟩ := compileForm_ok hok
  refine full_of_group hd rfl (by decide) (by decide) (List.forall_mem_cons.2
    ⟨fun s' hs' child shown => ?_, List.forall_mem_singleton.2 fun s' hs' child shown => ?_⟩)
  · obtain rfl : s' = codesNode := by simpa using hs'
    exact codes_full shown rfl codes
  · obtain rfl : s' = rowsNode := by simpa using hs'
    exact rows_full shown rfl rows first second

private theorem mixed_accepted : mixedDocument.Accepted := by
  refine ⟨32, mixedSchema, ?_, rfl⟩
  simp [mixedSchema]

private theorem mixed_names : mixedDocument.root.Everywhere Schema.NamesNoAdd := by
  have text : textNode.Everywhere Schema.NamesNoAdd := .of_scalar nofun rfl
  have texts : textsNode.Everywhere Schema.NamesNoAdd := .of_array nofun rfl text
  have rows : rowsNode.Everywhere Schema.NamesNoAdd := .of_array nofun rfl texts
  have inner : innerNode.Everywhere Schema.NamesNoAdd :=
    .of_object (by decide) rfl (List.forall_mem_singleton.2 text)
  have codes : codesNode.Everywhere Schema.NamesNoAdd :=
    .of_object (by decide) rfl (List.forall_mem_cons.2
      ⟨texts, List.forall_mem_singleton.2 inner⟩)
  exact .of_object (by decide) rfl (List.forall_mem_cons.2
    ⟨codes, List.forall_mem_singleton.2 rows⟩)

private theorem exists_container {form : CompiledForm} (hok : compileMixed = .ok form)
    {kind : Widget.Kind} {p : Path} {q : String} (h : (kind, p, q) ∈ mixedContainers) :
    ∃ n ∈ form.tree.nodes, n.widget.kind = kind ∧ n.path = p ∧
      (PointerMap.ofTree form.tree []).pointer? n.path = some q := by
  have known : (kind, p, some q) ∈ containers form := by
    rw [containers_mixed hok]
    exact List.mem_map_of_mem (f := fun c => (c.1, c.2.1, some c.2.2)) h
  obtain ⟨n, hn, same⟩ := List.mem_map.1 known
  simp only [Prod.mk.injEq] at same
  obtain ⟨rfl, rfl, pointer⟩ := same
  exact ⟨n, (List.mem_filter.1 hn).1, rfl, rfl, pointer⟩

private theorem group_path {form : CompiledForm} (hok : compileMixed = .ok form) {g : WidgetTree}
    (hg : g ∈ form.tree.nodes) (group : g.widget.kind = .group) :
    g.path ∈ [[], [.property "codes"], [.property "codes", .property "1"]] := by
  have known : (g.widget.kind, g.path, (PointerMap.ofTree form.tree []).pointer? g.path) ∈
      containers form :=
    List.mem_map.2 ⟨g, List.mem_filter.2 ⟨hg, by simp [group]⟩, rfl⟩
  rw [containers_mixed hok] at known
  obtain ⟨c, hc, same⟩ := List.mem_map.1 known
  simp only [group, Prod.mk.injEq] at same
  obtain ⟨kind, path, -⟩ := same
  rw [← path]
  have groups : ∀ c ∈ mixedContainers, c.1 = .group →
      c.2.1 ∈ [[], [.property "codes"], [.property "codes", .property "1"]] := by decide
  exact groups c hc kind

private theorem exists_mixed : ∃ form, compileMixed = .ok form := by
  have known := map_containers
  cases hok : compileMixed with
  | error e => rw [hok] at known; cases known
  | ok form => exact ⟨form, rfl⟩

/-- A group under digits becomes a list, in which its properties change places, and an item that
has no items becomes an object. -/
theorem container_shapes_mixed : ∃ form, mixedDocument.Accepted ∧
    mixedDocument.root.Everywhere Schema.NamesNoAdd ∧ RepeatTable.empty.Reachable ∧
      ({} : Hint).NamesNoWidget ∧ compileMixed = .ok form ∧ Full form.tree mixedRaw ∧
        (∃ n ∈ form.tree.nodes, n.widget.kind = .group ∧
          (PointerMap.ofTree form.tree []).pointer? n.path = some "/codes" ∧
            ∃ items, Pointer.lookup? "/codes" (prepare mixedDocument mixedRaw) =
              some (.array items)) ∧
        (∃ n ∈ form.tree.nodes, n.widget.kind = .repeatable ∧
          (PointerMap.ofTree form.tree []).pointer? n.path = some "/codes/0" ∧
            ∃ members, Pointer.lookup? "/codes/0" (prepare mixedDocument mixedRaw) =
              some (.object members)) ∧
        ∃ n ∈ form.tree.nodes, n.widget.kind = .repeatable ∧
          (PointerMap.ofTree form.tree []).pointer? n.path = some "/rows/0" ∧
            Pointer.lookup? "/rows/0" (prepare mixedDocument mixedRaw) = some (.object []) := by
  obtain ⟨form, hok⟩ := exists_mixed
  have member {c : Widget.Kind × Path × String} (i : Nat) (h : mixedContainers[i]? = some c) :
      c ∈ mixedContainers := List.mem_of_getElem? h
  obtain ⟨codes, hcodes, group, -, codesPointer⟩ := exists_container hok (member 1 rfl)
  obtain ⟨code, hcode, repeatable, -, codePointer⟩ := exists_container hok (member 2 rfl)
  obtain ⟨row, hrow, repeatable', -, rowPointer⟩ := exists_container hok (member 5 rfl)
  rw [prepare_mixed]
  exact ⟨form, mixed_accepted, mixed_names, .empty, .node rfl nofun, hok, mixed_full hok,
    ⟨codes, hcodes, group, codesPointer, _, rfl⟩,
    ⟨code, hcode, repeatable, codePointer, _, rfl⟩, ⟨row, hrow, repeatable', rowPointer, rfl⟩⟩

/-- The second row has an item, and no group above it is submitted under digits. -/
theorem container_shapes_mixed_row : ∃ form n, mixedDocument.Accepted ∧
    mixedDocument.root.Everywhere Schema.NamesNoAdd ∧ RepeatTable.empty.Reachable ∧
      compileMixed = .ok form ∧ Full form.tree mixedRaw ∧ n ∈ form.tree.nodes ∧
        n.widget.kind = .repeatable ∧
        (∀ g ∈ form.tree.nodes, g.widget.kind = .group → g.path <+: n.path → ∀ members,
          submittedAt? [] g.path mixedRaw = some (.object members) → ¬OnlyIndices members) ∧
        (PointerMap.ofTree form.tree []).pointer? n.path = some "/rows/1" ∧
          Pointer.lookup? "/rows/1" (prepare mixedDocument mixedRaw) =
            some (.array [.string "y"]) ∧
          ((n.widget.kind = .group → ∃ members, Json.array [.string "y"] = .object members) ∧
            (n.widget.kind = .repeatable →
              (n.removableItems = [] → n.path.getLast? ≠ some .wrapper) →
                ∃ items, Json.array [.string "y"] = .array items)) := by
  obtain ⟨form, hok⟩ := exists_mixed
  have known : (.repeatable, [.property "rows", .index 1, .wrapper], "/rows/1") ∈
      mixedContainers := List.mem_of_getElem? (i := 6) rfl
  obtain ⟨n, hn, kind, path, pointer⟩ := exists_container hok known
  have named : ∀ g ∈ form.tree.nodes, g.widget.kind = .group → g.path <+: n.path → ∀ members,
      submittedAt? [] g.path mixedRaw = some (.object members) → ¬OnlyIndices members := by
    intro g hg group above members submitted indices
    rw [path] at above
    have here : g.path = [] := by
      have places := group_path hok hg group
      simp only [List.mem_cons, List.not_mem_nil, or_false] at places
      rcases places with here | codes | code
      · exact here
      · rw [codes] at above
        exact absurd above (by decide)
      · rw [code] at above
        exact absurd above (by decide)
    rw [here] at submitted
    cases submitted
    exact absurd (indices.2 _ List.mem_cons_self) (by decide)
  have found : Pointer.lookup? "/rows/1" (prepare mixedDocument mixedRaw) =
      some (.array [.string "y"]) := by
    rw [prepare_mixed]
    rfl
  exact ⟨form, n, mixed_accepted, mixed_names, .empty, hok, mixed_full hok, hn, kind, named,
    pointer, found, container_shapes mixed_accepted mixed_names .empty hok (mixed_full hok) hn named
      pointer found⟩

end Mixed

end Submission
end FormTree
