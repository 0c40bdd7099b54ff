import FormTree.Schema.Normal

/-!
The nodes of a schema. Facts about all of them are proved from the leaves up,
and what holds of a whole schema holds of every node below.
-/

namespace FormTree.Schema

/-- The node for entries that an object does not declare. -/
def rest? (s : Schema) : Option Schema :=
  match s.shape with
  | .object _ _ rest => rest
  | _ => none

/-- A property that a node has as soon as the nodes below it have it. -/
def Ascends (motive : Schema → Prop) : Prop :=
  ∀ s : Schema, (∀ properties, s.properties? = some properties → ∀ m ∈ properties, motive m.2) →
    (∀ items, s.items? = some items → motive items) →
    (∀ rest, s.rest? = some rest → motive rest) → motive s

section Induction

variable {motive : Schema → Prop}

mutual

theorem induct (node : Ascends motive) : (s : Schema) → motive s
  | ⟨_, _, _, _, _, .const _⟩ => node _ nofun nofun nofun
  | ⟨_, _, _, _, _, .enum _⟩ => node _ nofun nofun nofun
  | ⟨_, _, _, _, _, .scalar⟩ => node _ nofun nofun nofun
  | ⟨_, _, _, _, _, .array items⟩ =>
      node _ nofun (fun _ h => Option.some.inj h ▸ induct node items) nofun
  | ⟨_, _, _, _, _, .object properties _ rest⟩ =>
      node _ (fun _ h => Option.some.inj h ▸ inductMembers node properties) nofun
        (fun _ h => inductRest node rest _ h)

private theorem inductMembers (node : Ascends motive) :
    (properties : List (String × Schema)) → ∀ m ∈ properties, motive m.2
  | [] => nofun
  | (_, s) :: properties =>
      List.forall_mem_cons.2 ⟨induct node s, inductMembers node properties⟩

private theorem inductRest (node : Ascends motive) :
    (rest : Option Schema) → ∀ s, rest = some s → motive s
  | none => nofun
  | some s => fun _ h => Option.some.inj h ▸ induct node s

end

end Induction

/-- `P` holds of a node and of every node below it. -/
inductive Everywhere (P : Schema → Prop) : Schema → Prop
  | node {s : Schema} (here : P s)
      (properties : ∀ ps, s.properties? = some ps → ∀ m ∈ ps, Everywhere P m.2)
      (items : ∀ i, s.items? = some i → Everywhere P i)
      (rest : ∀ r, s.rest? = some r → Everywhere P r) : Everywhere P s

namespace Everywhere

variable {P : Schema → Prop} {s : Schema}

theorem here (h : Everywhere P s) : P s := by
  cases h; assumption

theorem property (h : Everywhere P s) {ps : List (String × Schema)}
    (hs : s.properties? = some ps) {m : String × Schema} (hm : m ∈ ps) : Everywhere P m.2 := by
  cases h with
  | node _ properties _ _ => exact properties ps hs m hm

theorem item (h : Everywhere P s) {i : Schema} (hs : s.items? = some i) : Everywhere P i := by
  cases h with
  | node _ _ items _ => exact items i hs

theorem of_scalar (here : P s) (hs : s.shape = .scalar) : Everywhere P s := by
  refine .node here ?_ ?_ ?_ <;> simp [properties?, items?, rest?, hs]

theorem of_array (here : P s) {items : Schema} (hs : s.shape = .array items)
    (below : Everywhere P items) : Everywhere P s := by
  refine .node here ?_ ?_ ?_ <;> simp [properties?, items?, rest?, hs, below]

theorem of_object (here : P s) {properties : List (String × Schema)} {required : List String}
    (hs : s.shape = .object properties required none)
    (below : ∀ m ∈ properties, Everywhere P m.2) : Everywhere P s := by
  refine .node here ?_ ?_ ?_
  · intro ps hps
    rw [properties?, hs] at hps
    cases hps
    exact below
  · simp [items?, hs]
  · simp [rest?, hs]

end Everywhere

/-- The declared properties of a node; none where it declares no properties. -/
def names (s : Schema) : List String := (s.properties?.getD []).map Prod.fst

/-- What every node of a normalized schema satisfies: the type of its parts is
declared, and no property is declared twice. -/
structure Sound (s : Schema) : Prop where
  array : ∀ i, s.items? = some i → s.types.contains .array = true
  object : ∀ ps, s.properties? = some ps → s.types.contains .object = true
  names : s.names.Nodup

end FormTree.Schema
