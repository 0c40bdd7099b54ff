import FormTree.Proofs.Schema.Accepted
import FormTree.Proofs.Submission.Cleaned
import FormTree.Proofs.Submission.Typed
import FormTree.Submission

/-!
Documents that are prepared already. What is of its declared type is cast to itself. What is blank
nowhere, and looks nowhere like the input of widgets, is cleaned to itself.
-/

namespace FormTree

namespace Submission

open Json (Filled)

/-- Nothing in the value looks like items under their indices, like the label of the add control
or like wrappers. -/
def Plain : Json → Prop
  | .array items => items ≠ [] → ∃ w ∈ items, ∀ v, ¬Wraps v w
  | .object members => ¬OnlyIndices members ∧
      ∀ m ∈ members, m.1 = Control.addMore.key → ∀ text, m.2 ≠ .string text
  | _ => True

/-- A value is of the one type that a node declares beside `null`, or part by part what the nodes
of its parts declare. -/
inductive Conforms : Schema → Json → Prop
  | null {s : Schema} (declared : .null ∈ s.types) : Conforms s .null
  | boolean {s : Schema} (declared : .boolean ∈ s.types)
      (only : ∀ t ∈ s.types, t = .boolean ∨ t = .null) (b : Bool) : Conforms s (.bool b)
  | integer {s : Schema} (declared : .integer ∈ s.types ∨ .number ∈ s.types) (n : Int) :
      Conforms s (.number (.int n))
  | float {s : Schema} (declared : .number ∈ s.types) (x : Binary64) :
      Conforms s (.number (.float x))
  | text {s : Schema} {text : String} (declared : .string ∈ s.types)
      (only : ∀ t ∈ s.types, t = .string ∨ t = .null) (filled : .null ∈ s.types → text ≠ "") :
      Conforms s (.string text)
  | array {s items : Schema} {values : List Json} (node : s.items? = some items)
      (below : ∀ v ∈ values, Conforms items v) : Conforms s (.array values)
  | object {s : Schema} {properties : List (String × Schema)} {members : List (String × Json)}
      (node : s.properties? = some properties)
      (declared : ∀ m ∈ members, m.1 ∈ properties.map Prod.fst)
      (below : ∀ m ∈ members, ∀ s', properties.lookup m.1 = some s' → Conforms s' m.2) :
      Conforms s (.object members)

variable {s : Schema} {v : Json} {values held : List Json} {members : List (String × Json)}

theorem dropBlankTail_eq_self (filled : (Json.array values).Filled) :
    dropBlankTail values = values := by
  refine List.rdropWhile_eq_self_iff.2 fun nonempty blank => ?_
  exact filled _ (List.getLast?_eq_some_getLast nonempty) (isBlank_iff.1 blank)

theorem exists_of_wrapped (wraps : List.Forall₂ Wraps held values) {w : Json} (hw : w ∈ values) :
    ∃ v, Wraps v w := by
  induction wraps with
  | nil => cases hw
  | cons wraps _ ih =>
      rcases List.mem_cons.1 hw with rfl | hw
      · exact ⟨_, wraps⟩
      · exact ih hw

theorem Unwrapped.eq_self (unwrapped : Unwrapped values held) (plain : Plain (.array values)) :
    held = values := by
  cases unwrapped with
  | bare _ => rfl
  | wrapped wraps =>
      cases values with
      | nil =>
          cases wraps
          rfl
      | cons v values =>
          obtain ⟨w, hw, other⟩ := plain (List.cons_ne_nil v values)
          obtain ⟨u, wraps⟩ := exists_of_wrapped wraps hw
          exact absurd wraps (other u)

theorem Plain.of_names (names : ∀ m ∈ members, isPlainName m.1 = true) : Plain (.object members) :=
  ⟨not_onlyIndices_of_plain names, fun m hm key => absurd key (isPlainName_iff.1 (names m hm)).2⟩

theorem Plain.entries_eq (plain : Plain (.object members)) : entries members = members := by
  refine entries_eq_self fun m hm => ?_
  rw [isAddLabel]
  cases key : m.1 == Control.addMore.key with
  | false => rfl
  | true =>
      cases held : m.2 with
      | string text => exact absurd held (plain.2 m hm (eq_of_beq key) text)
      | _ => rfl

theorem cleanEntries_eq_self (kept : entries members = members)
    (filled : (Json.object members).Filled) (same : ∀ m ∈ members, clean m.2 = m.2) :
    cleanEntries members = members := by
  have each : ∀ m ∈ members,
      (if isBlank (clean m.2) then none else some (m.1, clean m.2)) = some m := by
    intro m hm
    have notBlank : ¬isBlank m.2 = true := fun blank => filled m hm (isBlank_iff.1 blank)
    rw [same m hm, if_neg notBlank]
  rw [cleanEntries_eq, kept, List.filterMap_congr each, List.filterMap_some]

/-- A value that is nowhere blank and does not look like input is clean. -/
theorem clean_eq_self (filled : v.Everywhere Filled) (plain : v.Everywhere Plain) :
    clean v = v := by
  have step := cleaned v
  generalize clean v = w at step
  induction step with
  | scalar _ => rfl
  | @sequence _ values held listed unwrapped _ ih =>
      cases listed with
      | array =>
          rw [Json.everywhere_array_iff] at filled plain
          rw [unwrapped.eq_self plain.1] at ih ⊢
          have same : values.map clean = values.map id :=
            List.map_congr_left fun u hu => ih u hu (filled.2 u hu) (plain.2 u hu)
          rw [same, List.map_id, dropBlankTail_eq_self filled.1]
      | mapping indexed =>
          -- The mapping would have to look like items under their indices.
          rw [Json.everywhere_object_iff] at plain
          exact absurd ((isIndexed_iff plain.1.entries_eq).1 indexed) plain.1.1
  | mapping _ _ ih =>
      rw [Json.everywhere_object_iff] at filled plain
      have kept := plain.1.entries_eq
      rw [kept] at ih
      rw [cleanEntries_eq_self kept filled.1 fun m hm =>
        ih m hm (filled.2 m hm) (plain.2 m hm)]

theorem castMembers_eq_self (same : ∀ m ∈ members, cast (entrySchema s m.1) m.2 = m.2) :
    castMembers s members = members := by
  have each : (members.map fun m => (m.1, cast (entrySchema s m.1) m.2)) = members.map id :=
    List.map_congr_left fun m hm => congrArg (Prod.mk m.1) (same m hm)
  rw [castMembers_eq, each, List.map_id]

/-- A value of its declared type is cast to itself. -/
theorem Conforms.cast_eq_self (conforms : Conforms s v) (sound : s.Everywhere Schema.Sound) :
    cast s v = v := by
  induction conforms with
  | null declared =>
      rw [cast_leaf _ rfl]
      exact castScalar_null (List.contains_iff_mem.2 declared)
  | boolean declared _ b =>
      rw [cast_leaf _ rfl]
      exact castScalar_bool (List.contains_iff_mem.2 declared) b
  | integer declared n =>
      rw [cast_leaf _ rfl]
      have numeric := declared.imp List.contains_iff_mem.2 List.contains_iff_mem.2
      exact castScalar_number (isNumeric_iff.2 numeric) rfl
  | @float s declared x =>
      rw [cast_leaf _ rfl]
      have number : s.types.contains .number = true := List.contains_iff_mem.2 declared
      refine castScalar_number (isNumeric_iff.2 (.inr number)) ?_
      rw [numberOf?, settled, if_neg]
      intro only
      rw [isIntegerOnly_iff, number] at only
      cases only.2
  | @text s text declared only filled =>
      rw [cast_leaf _ rfl]
      have other (t : JsonType) (string : t ≠ .string) (null : t ≠ .null) :
          s.types.contains t = false := by
        rw [Bool.eq_false_iff]
        intro declares
        exact (only t (List.contains_iff_mem.1 declares)).elim string null
      refine castScalar_text ?_ ?_ ?_
      · rw [TypeSet.isNumeric, other .integer (by decide) (by decide),
          other .number (by decide) (by decide)]
        rfl
      · rw [other .boolean (by decide) (by decide)]
        exact fun boolean => absurd boolean Bool.false_ne_true
      · exact fun null => filled (List.contains_iff_mem.1 null)
  | @array s items values node _ ih =>
      have same : values.map (cast items) = values.map id :=
        List.map_congr_left fun v hv => ih v hv (sound.item node)
      rw [cast_array (sound.here.array _ node) node, same, List.map_id]
  | @object s properties members node declared _ ih =>
      rw [cast_object (sound.here.object _ node)]
      refine congrArg Json.object (castMembers_eq_self fun m hm => ?_)
      obtain ⟨p, hp, key⟩ := List.mem_map.1 (declared m hm)
      have named : (properties.lookup m.1).isSome = true :=
        List.lookup_isSome_iff.2 ⟨p, hp, beq_iff_eq.2 key.symm⟩
      obtain ⟨s', found⟩ := Option.isSome_iff_exists.1 named
      rw [entrySchema_of_lookup node found]
      exact ih m hm s' found (sound.property node (mem_of_lookup found))

/-- A document of the declared types, nowhere blank and nowhere like input, is prepared already. -/
theorem prepare_eq_self {d : SchemaDocument} {doc : Json} (accepted : d.Accepted)
    (conforms : Conforms d.root doc) (filled : doc.Everywhere Filled)
    (plain : doc.Everywhere Plain) : prepare d doc = doc := by
  rw [prepare, clean_eq_self filled plain]
  exact conforms.cast_eq_self accepted.sound

private def typedSchema : Json :=
  let node (type : Json) (more : List (String × Json)) : Json := .object (("type", type) :: more)
  let text := node (.string "string") []
  let row := node (.string "object") [("properties", .object
    [("removable_element", text), ("remove_one", text)])]
  let level := node (.array [.string "integer", .string "null"]) []
  node (.string "object") [("properties", .object
    [("rows", node (.string "array") [("items", row)]),
      ("levels", node (.string "array") [("items", level)])])]

private def nodeOf (types : TypeSet) (shape : Shape Schema) : Schema :=
  ⟨types, none, none, none, none, shape⟩

private def typedRow : Schema :=
  nodeOf [.object] (.object [("removable_element", nodeOf [.string] .scalar),
    ("remove_one", nodeOf [.string] .scalar)] [] none)

private def typedDocument : SchemaDocument :=
  ⟨typedSchema, nodeOf [.object] (.object
    [("rows", nodeOf [.array] (.array typedRow)),
      ("levels", nodeOf [.array] (.array (nodeOf [.integer, .null] .scalar)))] [] none)⟩

/-- A row that looks like a wrapper and one that does not. -/
private def typedRows : List Json :=
  [.object [("removable_element", .string "a"), ("remove_one", .string "b")],
    .object [("remove_one", .string "c")]]

private def typed : Json :=
  .object [("rows", .array typedRows), ("levels", .array [.null, .number (.int 3)])]

private theorem typed_accepted : typedDocument.Accepted := by
  refine ⟨32, typedSchema, ?_, rfl⟩
  simp [typedSchema]

private theorem typedText_conforms (text : String) :
    Conforms (nodeOf [.string] .scalar) (.string text) :=
  .text (by decide) (by decide) fun null => absurd null (by decide)

private theorem typedRows_conform : ∀ row ∈ typedRows, Conforms typedRow row := by
  refine List.forall_mem_cons.2 ⟨?_, List.forall_mem_singleton.2 ?_⟩
  · refine .object rfl (by decide) (List.forall_mem_cons.2
      ⟨?_, List.forall_mem_singleton.2 ?_⟩)
    all_goals
      intro s found
      cases found
      exact typedText_conforms _
  · refine .object rfl (by decide) (List.forall_mem_singleton.2 ?_)
    intro s found
    cases found
    exact typedText_conforms _

private theorem typed_conforms : Conforms typedDocument.root typed := by
  refine .object rfl (by decide) (List.forall_mem_cons.2
    ⟨?_, List.forall_mem_singleton.2 ?_⟩)
  · intro s found
    cases found
    exact .array rfl typedRows_conform
  · intro s found
    cases found
    refine .array rfl (List.forall_mem_cons.2 ⟨.null (by decide), List.forall_mem_singleton.2 ?_⟩)
    exact .integer (.inl (by decide)) 3

private theorem typed_filled : typed.Everywhere Filled := by
  simp [typed, typedRows, Filled, ← isBlank_iff, isBlank]

private theorem typed_plain : typed.Everywhere Plain := by
  have other : ∀ v, ¬Wraps v (.object [("remove_one", .string "c")]) := fun v wraps =>
    absurd wraps.isWrapper (by decide)
  have empty : ∀ v, ¬Wraps v .null := fun v wraps => absurd wraps.isWrapper (by decide)
  have rows : Plain (.array typedRows) :=
    fun _ => ⟨_, List.mem_cons_of_mem _ List.mem_cons_self, other⟩
  have levels : Plain (.array [.null, .number (.int 3)]) := fun _ => ⟨_, List.mem_cons_self, empty⟩
  simp only [typed, typedRows, Json.everywhere_object_iff, Json.everywhere_array_iff,
    Json.everywhere_string_iff, Json.everywhere_null_iff, Json.everywhere_number_iff,
    List.forall_mem_cons, List.not_mem_nil, IsEmpty.forall_iff, implies_true, and_true]
  refine ⟨.of_names (by decide), ⟨rows, ?_, ?_⟩, levels, trivial, trivial⟩
  · exact ⟨.of_names (by decide), trivial, trivial⟩
  · exact ⟨.of_names (by decide), trivial⟩

theorem prepare_eq_self_of_rows : prepare typedDocument typed = typed :=
  prepare_eq_self typed_accepted typed_conforms typed_filled typed_plain

end Submission

end FormTree
