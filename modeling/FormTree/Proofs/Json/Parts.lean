import FormTree.Json

/-!
The values inside a value: itself, and what is inside its items or its entries. An induction over
a value goes by the values right below it, and what holds everywhere in a container holds of it
and everywhere in what it contains.
-/

namespace FormTree.Json

def isContainer : Json → Bool
  | .array _ | .object _ => true
  | _ => false

mutual

/-- What holds of all but containers, and of containers from their parts, holds of every value. -/
@[elab_as_elim]
theorem induct {motive : Json → Prop} (leaf : ∀ v, v.isContainer = false → motive v)
    (array : ∀ items, (∀ v ∈ items, motive v) → motive (.array items))
    (object : ∀ members, (∀ m ∈ members, motive m.2) → motive (.object members)) :
    (v : Json) → motive v
  | .null => leaf _ rfl
  | .bool _ => leaf _ rfl
  | .number _ => leaf _ rfl
  | .string _ => leaf _ rfl
  | .array items => array items (inductItems leaf array object items)
  | .object members => object members (inductMembers leaf array object members)

private theorem inductItems {motive : Json → Prop} (leaf : ∀ v, v.isContainer = false → motive v)
    (array : ∀ items, (∀ v ∈ items, motive v) → motive (.array items))
    (object : ∀ members, (∀ m ∈ members, motive m.2) → motive (.object members)) :
    (items : List Json) → ∀ v ∈ items, motive v
  | [] => nofun
  | v :: rest =>
      List.forall_mem_cons.2 ⟨induct leaf array object v, inductItems leaf array object rest⟩

private theorem inductMembers {motive : Json → Prop} (leaf : ∀ v, v.isContainer = false → motive v)
    (array : ∀ items, (∀ v ∈ items, motive v) → motive (.array items))
    (object : ∀ members, (∀ m ∈ members, motive m.2) → motive (.object members)) :
    (members : List (String × Json)) → ∀ m ∈ members, motive m.2
  | [] => nofun
  | (_, v) :: rest =>
      List.forall_mem_cons.2 ⟨induct leaf array object v, inductMembers leaf array object rest⟩

end

/-- A value is inside itself, and inside every container that holds it at any depth. -/
inductive Inside (w : Json) : Json → Prop
  | self : Inside w w
  | item {v : Json} {items : List Json} (held : v ∈ items) (inside : Inside w v) :
      Inside w (.array items)
  | entry {m : String × Json} {members : List (String × Json)} (held : m ∈ members)
      (inside : Inside w m.2) : Inside w (.object members)

/-- `P` holds of everything inside a value. -/
def Everywhere (P : Json → Prop) (v : Json) : Prop := ∀ w, Inside w v → P w

variable {P : Json → Prop} {v : Json}

theorem everywhere_leaf_iff (leaf : v.isContainer = false) : v.Everywhere P ↔ P v := by
  constructor
  · intro h
    exact h v .self
  · intro h w inside
    cases inside with
    | self => exact h
    | item _ _ | entry _ _ => cases leaf

@[simp]
theorem everywhere_null_iff : Json.null.Everywhere P ↔ P .null := everywhere_leaf_iff rfl

@[simp]
theorem everywhere_number_iff {n : Number} : (Json.number n).Everywhere P ↔ P (.number n) :=
  everywhere_leaf_iff rfl

@[simp]
theorem everywhere_string_iff {text : String} :
    (Json.string text).Everywhere P ↔ P (.string text) :=
  everywhere_leaf_iff rfl

@[simp]
theorem everywhere_array_iff {items : List Json} :
    (Json.array items).Everywhere P ↔ P (.array items) ∧ ∀ v ∈ items, v.Everywhere P := by
  constructor
  · intro h
    exact ⟨h _ .self, fun v held w inside => h w (.item held inside)⟩
  · rintro ⟨here, below⟩ w inside
    cases inside with
    | self => exact here
    | item held inside => exact below _ held w inside

@[simp]
theorem everywhere_object_iff {members : List (String × Json)} :
    (Json.object members).Everywhere P ↔
      P (.object members) ∧ ∀ m ∈ members, m.2.Everywhere P := by
  constructor
  · intro h
    exact ⟨h _ .self, fun m held w inside => h w (.entry held inside)⟩
  · rintro ⟨here, below⟩ w inside
    cases inside with
    | self => exact here
    | entry held inside => exact below _ held w inside

end FormTree.Json
