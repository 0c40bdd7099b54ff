import FormTree.Proofs.Compile.Route
import FormTree.Proofs.Submission.Cast
import FormTree.Proofs.Submission.Clean
import FormTree.Submission

/-!
Where the values of a prepared document come from. For each pointer the origin
of its value are keys of the submission: property names, and for an item the key
of the entry that has its place in the submission. A value that is not blank is
found at its pointer, cast under its node, and nothing else is found there.
-/

namespace FormTree

/-- No property is named like an index or like the add control. -/
def Schema.PlainNames (s : Schema) : Prop :=
  ∀ name ∈ s.names, Submission.isPlainName name = true

namespace Submission

/-- What a single widget submits. -/
def isScalar : Json → Bool
  | .bool _ | .number _ | .string _ => true
  | .null | .array _ | .object _ => false

/-- The value under keys, each inside the one before. -/
def entered? : List String → Json → Option Json
  | [], v => some v
  | key :: rest, v => (v.member? key).bind (entered? rest)

/-- What is submitted for the widget at a path: the value under the keys of its segments. -/
def submittedAt? (root p : Path) (raw : Json) : Option Json :=
  (p.below? root).bind fun rel => entered? (rel.map Segment.key) raw

theorem submittedAt?_append (root rel : Path) (raw : Json) :
    submittedAt? root (root ++ rel) raw = entered? (rel.map Segment.key) raw := by
  rw [submittedAt?, Path.below?_append, Option.bind_some]

/-- The submission has the shape of the form of a node: an object under declared names for a
group, items under indices for a repeated field, and a scalar for everything else. -/
inductive Shaped : Schema → Hint → Json → Prop
  | value {s : Schema} {h : Hint} {v : Json} (role : s.role h = .single)
      (scalar : isScalar v = true) : Shaped s h v
  | group {s : Schema} {h : Hint} {properties : List (String × Schema)} {required : List String}
      {members : List (String × Json)} (role : s.role h = .group properties required)
      (keys : (members.map Prod.fst).Nodup)
      (declared : ∀ m ∈ members, m.1 ∈ properties.map Prod.fst)
      (below : ∀ m ∈ members, ∀ s', properties.lookup m.1 = some s' → Shaped s' (h.child m.1) m.2) :
      Shaped s h (.object members)
  | repeated {s items : Schema} {h : Hint} {members : List (String × Json)}
      {submitted : List Entered} (role : s.role h = .repeated items)
      (submits : Submits members submitted) (below : ∀ e ∈ submitted, Shaped items h.item e.value) :
      Shaped s h (.object members)

/-- The keys under which a submission holds the value of a pointer, with the node of the value. -/
inductive Origin : Schema → Hint → Json → List String → List String → Schema → Json → Prop
  | here (s : Schema) (h : Hint) (v : Json) : Origin s h v [] [] s v
  | property {s s' t : Schema} {h : Hint} {properties : List (String × Schema)}
      {required : List String} {members : List (String × Json)} {name : String} {u v : Json}
      {tokens keys : List String} (role : s.role h = .group properties required)
      (declared : properties.lookup name = some t) (held : members.lookup name = some u)
      (below : Origin t (h.child name) u tokens keys s' v) :
      Origin s h (.object members) (name :: tokens) (name :: keys) s' v
  | item {s s' items : Schema} {h : Hint} {members : List (String × Json)} {place : Nat}
      {key : String} {w u v : Json} {tokens keys : List String} (role : s.role h = .repeated items)
      (held : (entries members)[place]? = some (key, w)) (wraps : Wraps u w)
      (below : Origin items h.item u tokens keys s' v) :
      Origin s h (.object members) (toString place :: tokens) (key :: Segment.wrapperKey :: keys)
        s' v

theorem clean_scalar {v : Json} (h : isScalar v = true) : clean v = v := by
  cases v with
  | null | array | object => cases h
  | bool | number | string => rfl

section Prepared

variable {s s' : Schema} {h h' : Hint} {raw v x : Json} {rel : Path} {tokens keys : List String}

theorem Shaped.group_members {properties : List (String × Schema)} {required : List String}
    (shaped : Shaped s h raw) (role : s.role h = .group properties required) :
    ∃ members, raw = .object members ∧ (members.map Prod.fst).Nodup ∧
      (∀ m ∈ members, m.1 ∈ properties.map Prod.fst) ∧
        ∀ m ∈ members, ∀ t, properties.lookup m.1 = some t → Shaped t (h.child m.1) m.2 := by
  cases shaped with
  | value role' _ => exact absurd (role.symm.trans role') nofun
  | group role' keys declared below =>
      cases role.symm.trans role'
      exact ⟨_, rfl, keys, declared, below⟩
  | repeated role' _ _ => exact absurd (role.symm.trans role') nofun

theorem Shaped.repeated_items {items : Schema} (shaped : Shaped s h raw)
    (role : s.role h = .repeated items) :
    ∃ members submitted, raw = .object members ∧ Submits members submitted ∧
      ∀ e ∈ submitted, Shaped items h.item e.value := by
  cases shaped with
  | value role' _ => exact absurd (role.symm.trans role') nofun
  | group role' _ _ _ => exact absurd (role.symm.trans role') nofun
  | repeated role' submits below =>
      cases role.symm.trans role'
      exact ⟨_, _, rfl, submits, below⟩

theorem Shaped.scalar (shaped : Shaped s h v) (role : s.role h = .single) : isScalar v = true := by
  cases shaped with
  | value _ scalar => exact scalar
  | group role' _ _ _ => exact absurd (role.symm.trans role') nofun
  | repeated role' _ _ => exact absurd (role.symm.trans role') nofun

/-- The properties of a group are plain, so its object is cleaned entry by entry. -/
private theorem clean_group {properties : List (String × Schema)} {required : List String}
    {members : List (String × Json)} (role : s.role h = .group properties required)
    (plain : s.PlainNames) (declared : ∀ m ∈ members, m.1 ∈ properties.map Prod.fst) :
    clean (.object members) = .object (cleanEntries members) ∧ entries members = members := by
  refine clean_plain fun m hm => plain m.1 ?_
  rw [Schema.names, Schema.properties_of_group role]
  exact declared m hm

theorem Origin.entered (o : Origin s h raw tokens keys s' v) (shaped : Shaped s h raw) :
    entered? keys raw = some v := by
  induction o with
  | here => rfl
  | property role declared held _ ih =>
      obtain ⟨members, heq, keys, -, below⟩ := shaped.group_members role
      cases heq
      rw [entered?, Json.member?, held, Option.bind_some]
      exact ih (below _ (mem_of_lookup held) _ declared)
  | item role held wraps _ ih =>
      obtain ⟨members, submitted, heq, submits, below⟩ := shaped.repeated_items role
      cases heq
      obtain ⟨e, he, rfl, rfl, rfl⟩ := submits.of_place held wraps
      have inside := List.mem_of_getElem? he
      rw [entered?, Json.member?, submits.lookup inside, Option.bind_some, entered?, wraps.member?,
        Option.bind_some]
      exact ih (below e inside)

/-- A value that is not blank is found at its pointer. -/
theorem Origin.resolve? (o : Origin s h raw tokens keys s' v) (shaped : Shaped s h raw)
    (sound : s.Everywhere Schema.Sound) (plain : s.Everywhere Schema.PlainNames)
    (blank : isBlank (clean v) = false) :
    isBlank (clean raw) = false ∧
      Pointer.resolve? tokens (cast s (clean raw)) = some (cast s' (clean v)) := by
  -- On the way in, what holds a value that is not blank is not blank itself. So nothing on the way
  -- is dropped, and no place is lost.
  induction o with
  | here => exact ⟨blank, rfl⟩
  | @property s s' t h properties required members name u v tokens keys role declared held _ ih =>
      obtain ⟨members, heq, nodup, names, below⟩ := shaped.group_members role
      cases heq
      have hproperties := Schema.properties_of_group role
      have inside := mem_of_lookup held
      obtain ⟨notBlank, found⟩ := ih (below _ inside _ declared)
        (sound.property hproperties (mem_of_lookup declared))
        (plain.property hproperties (mem_of_lookup declared)) blank
      obtain ⟨cleaned, kept⟩ := clean_group role plain.here names
      have left : (name, clean u) ∈ cleanEntries members :=
        mem_cleanEntries.2 ⟨u, kept.symm ▸ inside, rfl, notBlank⟩
      have nodup' := nodup.sublist (keys_cleanEntries_sublist members)
      rw [cleaned, cast_object (sound.here.object _ hproperties), Pointer.resolve?,
        lookup_castMembers, lookup_of_mem nodup' left, entrySchema_of_lookup hproperties declared]
      refine ⟨?_, found⟩
      rw [isBlank, List.isEmpty_eq_false_iff]
      exact List.ne_nil_of_mem left
  | @item s s' items h members place key w u v tokens keys role held wraps _ ih =>
      obtain ⟨members, submitted, heq, submits, below⟩ := shaped.repeated_items role
      cases heq
      obtain ⟨e, he, rfl, rfl, rfl⟩ := submits.of_place held wraps
      have hitems := Schema.items_of_repeated role
      have inside := List.mem_of_getElem? he
      obtain ⟨notBlank, found⟩ := ih (below e inside) (sound.item hitems) (plain.item hitems) blank
      have left : (dropBlankTail (submitted.map fun e => clean e.value))[place]? =
          some (clean e.value) :=
        getElem?_dropBlankTail (by rw [List.getElem?_map, he]; rfl) notBlank
      rw [submits.clean_eq (List.ne_nil_of_mem inside),
        cast_array (sound.here.array _ hitems) hitems, Pointer.resolve?, Pointer.index?_toString,
        Option.bind_some, List.getElem?_map, left]
      refine ⟨?_, found⟩
      rw [isBlank, List.isEmpty_eq_false_iff]
      exact List.ne_nil_of_mem (List.mem_of_getElem? left)

/-- A repeated field without items holds nothing below it, whatever it is cast to. -/
private theorem resolve?_cast_nil (s : Schema) (token : String) (tokens : List String) :
    Pointer.resolve? (token :: tokens) (cast s (.object [])) = none := by
  rw [cast]
  split
  · rfl
  · rw [castScalar]
    have number : castNumber? s.types (.object []) = none := by simp [castNumber?]
    have boolean : castBoolean? s.types (.object []) = none := by simp [castBoolean?]
    have string : castString? s.types (.object []) = none := by simp [castString?]
    rw [number, boolean, string, castNull?]
    split <;> rfl

/-- What is found below a property is found in what was submitted for it, which was not blank. -/
theorem resolve?_property {t : Schema} {properties : List (String × Schema)}
    {members : List (String × Json)} {name : String} (typed : s.types.contains .object = true)
    (hs : s.properties? = some properties) (declared : properties.lookup name = some t)
    (cleaned : clean (.object members) = .object (cleanEntries members) ∧
      entries members = members)
    (found : Pointer.resolve? (name :: tokens) (cast s (clean (.object members))) = some x) :
    ∃ u, (name, u) ∈ members ∧ isBlank (clean u) = false ∧
      Pointer.resolve? tokens (cast t (clean u)) = some x := by
  obtain ⟨cleaned, kept⟩ := cleaned
  rw [cleaned, cast_object typed, Pointer.resolve?, lookup_castMembers,
    entrySchema_of_lookup hs declared] at found
  obtain ⟨y, hy, found⟩ := Option.bind_eq_some_iff.1 found
  obtain ⟨z, hz, rfl⟩ := Option.map_eq_some_iff.1 hy
  obtain ⟨u, hu, rfl, notBlank⟩ := mem_cleanEntries.1 (mem_of_lookup hz)
  rw [kept] at hu
  exact ⟨u, hu, notBlank, found⟩

/-- What is found below an item is found in what was submitted in the place of the item. -/
theorem resolve?_item {items : Schema} {members : List (String × Json)} {submitted : List Entered}
    {place : Nat} (typed : s.types.contains .array = true) (hs : s.items? = some items)
    (submits : Submits members submitted)
    (found : Pointer.resolve? (toString place :: tokens) (cast s (clean (.object members))) =
      some x) :
    ∃ e, submitted[place]? = some e ∧
      Pointer.resolve? tokens (cast items (clean e.value)) = some x := by
  -- Without items there is nothing to tell the mapping from an object.
  by_cases nonempty : submitted = []
  · subst nonempty
    rw [submits.clean_nil, resolve?_cast_nil] at found
    cases found
  rw [submits.clean_eq nonempty, cast_array typed hs, Pointer.resolve?, Pointer.index?_toString,
    Option.bind_some, List.getElem?_map] at found
  obtain ⟨y, hy, found⟩ := Option.bind_eq_some_iff.1 found
  obtain ⟨z, hz, rfl⟩ := Option.map_eq_some_iff.1 hy
  have hplace := getElem?_of_dropBlankTail hz
  rw [List.getElem?_map] at hplace
  obtain ⟨e, he, rfl⟩ := Option.map_eq_some_iff.1 hplace
  exact ⟨e, he, found⟩

/-- What is found at a pointer has its origin in the submission. -/
theorem Shaped.origin (shaped : Shaped s h raw) (r : s.Route h rel tokens s' h')
    (sound : s.Everywhere Schema.Sound) (plain : s.Everywhere Schema.PlainNames)
    (found : Pointer.resolve? tokens (cast s (clean raw)) = some x) :
    ∃ keys v, Origin s h raw tokens keys s' v ∧ Shaped s' h' v ∧ x = cast s' (clean v) := by
  induction r generalizing raw with
  | here s h =>
      cases found
      exact ⟨[], raw, .here s h raw, shaped, rfl⟩
  | @property s s' t h h' properties required name rel tokens role declared _ ih =>
      obtain ⟨members, rfl, nodup, names, below⟩ := shaped.group_members role
      have hproperties := Schema.properties_of_group role
      obtain ⟨u, hu, -, found⟩ := resolve?_property (sound.here.object _ hproperties) hproperties
        declared (clean_group role plain.here names) found
      obtain ⟨keys, v, o, shaped', rfl⟩ := ih (below _ hu _ declared)
        (sound.property hproperties (mem_of_lookup declared))
        (plain.property hproperties (mem_of_lookup declared)) found
      exact ⟨_, v, .property role declared (lookup_of_mem nodup hu) o, shaped', rfl⟩
  | @item s s' items h h' i place rel tokens role _ ih =>
      obtain ⟨members, submitted, rfl, submits, below⟩ := shaped.repeated_items role
      have hitems := Schema.items_of_repeated role
      obtain ⟨e, he, found⟩ := resolve?_item (sound.here.array _ hitems) hitems submits found
      have inside := List.mem_of_getElem? he
      obtain ⟨keys, v, o, shaped', rfl⟩ :=
        ih (below e inside) (sound.item hitems) (plain.item hitems) found
      have held : (entries members)[place]? = some (toString e.index, e.wrapper) := by
        rw [submits.entries, List.getElem?_map, he]
        rfl
      exact ⟨_, v, .item role held (submits.wrapped e inside) o, shaped', rfl⟩

end Prepared

end Submission
end FormTree
