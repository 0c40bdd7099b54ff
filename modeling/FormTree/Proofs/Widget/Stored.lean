import FormTree.Proofs.Repeat.Reload
import FormTree.Proofs.Widget.Mapped
import FormTree.Widget.Json

/-!
Stored widget trees. Every widget is read back as it was, whichever of its
attributes are left out, except that a value of `null` reads as none.
-/

namespace FormTree

namespace Widget

/-- The widget has a stored form: its numbers fit 64 bits, and there is one option for each key. -/
structure Storable (w : Widget) : Prop where
  path : w.path.Fits
  propPath : w.propPath.Fits
  options : (w.options.map Prod.fst).Nodup
  cardinality : ∀ m, w.cardinality = some m → ∀ i, m.maxIndex = some i → i ≤ maxIndex
  delta : ∀ i, w.delta = some i → i ≤ maxIndex

/-- What is read back of a widget. -/
def withoutNull (w : Widget) : Widget :=
  { w with defaultValue := w.defaultValue.filter (· ≠ .null) }

theorem withoutNull_eq_self_iff {w : Widget} :
    w.withoutNull = w ↔ w.defaultValue ≠ some .null := by
  constructor
  · intro same null
    have := congrArg Widget.defaultValue same
    rw [withoutNull, null] at this
    cases this
  · intro value
    obtain ⟨name, path, propPath, kind, title, description, placeholder, defaultValue⟩ := w
    cases defaultValue with
    | none => rfl
    | some v =>
        have kept : v ≠ .null := fun null => value (congrArg some null)
        simp [withoutNull, Option.filter, kept]

section Members

variable {α : Type} {key name : String}

private theorem lookup_singleton (v : Json) :
    [(name, v)].lookup key = if key = name then some v else none := by
  by_cases h : key = name
  · simp [h]
  · simp [List.lookup_cons, h, beq_false_of_ne h]

theorem lookup_member (f : α → Json) (a : Option α) :
    (member name f a).lookup key = if key = name then a.map f else none := by
  cases a with
  | none => simp [member]
  | some a => exact lookup_singleton (f a)

theorem lookup_listMember (f : List α → Json) (l : List α) :
    (listMember name f l).lookup key =
      if key = name then (if l = [] then none else some (f l)) else none := by
  cases l with
  | nil => simp [listMember]
  | cons a l => exact lookup_singleton (f (a :: l))

end Members

section Decoding

theorem ofJson?_toJson_kind (k : Kind) : Kind.ofJson? k.toJson = some k := by
  cases k <;> rfl

theorem ofJson?_toJson_path {p : Path} (fits : p.Fits) : Path.ofJson? p.toJson = some p := by
  obtain ⟨q, hq⟩ := Option.isSome_iff_exists.1 (Path.isSome_ofJson? fits)
  rw [hq, restores_path p q hq]

theorem ofJson?_toJson_cardinality {m : Cardinality}
    (fits : ∀ i, m.maxIndex = some i → i ≤ maxIndex) : Cardinality.ofJson? m.toJson = some m := by
  obtain ⟨highest, unlimited⟩ := m
  have read : Json.nullable Json.index? (some (Json.ofOption .ofNat highest)) = some highest := by
    cases highest with
    | none => rfl
    | some i =>
        change (Json.ofNat i).index?.map some = _
        rw [index?_ofNat (fits i rfl)]
        rfl
  change (Json.nullable Json.index? (some (Json.ofOption .ofNat highest))).map _ = _
  rw [read]
  rfl

/-- A list is read item by item. -/
private theorem mapM_map {α β : Type} (encode : α → β) (decode : β → Option α)
    (each : ∀ a, decode (encode a) = some a) (l : List α) :
    (l.map encode).mapM decode = some l := by
  induction l with
  | nil => rfl
  | cons a l ih =>
      rw [List.map_cons, List.mapM_cons, each a, ih]
      rfl

theorem texts?_textsJson (texts : List String) : texts? (textsJson texts) = some texts :=
  mapM_map Json.string Json.string? (fun _ => rfl) texts

theorem options?_optionsJson {options : List (String × String)}
    (nodup : (options.map Prod.fst).Nodup) : options? (optionsJson options) = some options := by
  have read := mapM_map (fun o : String × String => (o.1, Json.string o.2))
    (fun m => m.2.string?.map fun s => (m.1, s)) (fun _ => rfl) options
  rw [optionsJson, options?, Json.object?, Option.bind_eq_bind, Option.bind_some, read]
  exact congrArg some (Entries.ofList_eq_self nodup)

/-- An empty list may be left out. -/
theorem optional_of_read {α : Type} {decode : Json → Option (List α)} {f : List α → Json}
    {l : List α} (read : decode (f l) = some l) :
    Json.optional decode [] (if l = [] then none else some (f l)) = some l := by
  cases l with
  | nil => rfl
  | cons a l => exact read

theorem nullable_of_read {α : Type} {decode : Json → Option α} {f : α → Json} {a : Option α}
    (noNull : ∀ a, f a ≠ .null) (read : ∀ b, a = some b → decode (f b) = some b) :
    Json.nullable decode (a.map f) = some a := by
  cases a with
  | none => rfl
  | some b =>
      rw [Option.map_some, Json.nullable, read b rfl]
      · rfl
      · exact noNull b

theorem nullable_value (v : Option Json) :
    Json.nullable some v = some (v.filter (· ≠ .null)) := by
  rcases v with _ | _ | _ | _ | _ | _ | _ <;> rfl

end Decoding

section Members

variable {w : Widget}

theorem lookup_children (w : Widget) (trees : List Json) :
    (w.members (listMember "children" .array trees)).lookup "children" =
      if trees = [] then none else some (.array trees) := by
  simp [members, List.lookup_append, lookup_member, lookup_listMember, List.lookup_cons]

theorem ofMembers?_members (h : w.Storable) (trees : List Json) :
    ofMembers? (w.members (listMember "children" .array trees)) = some w.withoutNull := by
  have text (a : Option String) : Json.nullable Json.string? (a.map .string) = some a :=
    nullable_of_read (fun _ => nofun) fun _ _ => rfl
  have cardinality : Json.nullable Cardinality.ofJson? (w.cardinality.map Cardinality.toJson) =
      some w.cardinality :=
    nullable_of_read (fun _ => nofun) fun m hm => ofJson?_toJson_cardinality (h.cardinality m hm)
  have delta : Json.nullable Json.index? (w.delta.map .ofNat) = some w.delta :=
    nullable_of_read (fun _ => nofun) fun i hi => index?_ofNat (h.delta i hi)
  have options := optional_of_read (options?_optionsJson h.options)
  have errors := optional_of_read (texts?_textsJson w.errors)
  simp [ofMembers?, members, List.lookup_append, lookup_member, lookup_listMember,
    List.lookup_cons, Json.string?, Json.bool?, ofJson?_toJson_path h.path,
    ofJson?_toJson_path h.propPath, ofJson?_toJson_kind, text, nullable_value, options,
    cardinality, delta, errors, withoutNull]

end Members

end Widget

namespace WidgetTree

theorem toJsonAll_eq (trees : List WidgetTree) : toJsonAll trees = trees.map toJson := by
  induction trees with
  | nil => rfl
  | cons t trees ih => rw [toJsonAll, ih, List.map_cons]

theorem childrenOf?_eq (members : List (String × Json)) :
    childrenOf? members =
      match members.lookup "children" with
      | none => some []
      | some (.array items) => ofJsonAll? items
      | some _ => none := by
  induction members with
  | nil => rfl
  | cons m members ih =>
      obtain ⟨key, v⟩ := m
      by_cases h : key = "children"
      · subst h
        rw [List.lookup_cons_self]
        cases v <;> simp [childrenOf?]
      · rw [List.lookup_cons, beq_false_of_ne fun same => h same.symm, ← ih]
        cases v <;> simp [childrenOf?, h]

private theorem ofJsonAll?_map {f : WidgetTree → WidgetTree} {trees : List WidgetTree}
    (each : ∀ t ∈ trees, ofJson? t.toJson = some (f t)) :
    ofJsonAll? (trees.map toJson) = some (trees.map f) := by
  induction trees with
  | nil => rfl
  | cons t trees ih =>
      rw [List.forall_mem_cons] at each
      rw [List.map_cons, ofJsonAll?, each.1, ih each.2]
      rfl

/-- A tree is read back as it was stored, but for values of `null`. -/
theorem ofJson?_toJson {t : WidgetTree} (h : ∀ n ∈ t.nodes, n.widget.Storable) :
    ofJson? t.toJson = some (t.mapWidgets Widget.withoutNull) := by
  induction t using induct with
  | node w children ih =>
      have below : ∀ t ∈ children, ofJson? t.toJson = some (t.mapWidgets Widget.withoutNull) :=
        fun t ht => ih t ht fun n hn => h n (mem_nodes_iff.2 (.inr ⟨t, ht, hn⟩))
      have here : w.Storable := h _ (mem_nodes_self _)
      have read : childrenOf?
          (w.members (Widget.listMember "children" .array (children.map toJson))) =
            some (children.map (mapWidgets Widget.withoutNull)) := by
        rw [childrenOf?_eq, Widget.lookup_children]
        cases children with
        | nil => rfl
        | cons t children => exact ofJsonAll?_map below
      rw [toJson, ofJson?, toJsonAll_eq, Widget.ofMembers?_members here, read, mapWidgets_node]
      rfl

end WidgetTree
end FormTree
