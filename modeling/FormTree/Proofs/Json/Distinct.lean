import FormTree.Json

/-!
Values whose objects hold every key once, at any depth.
-/

namespace FormTree.Json

inductive Distinct : Json → Prop
  | value {v : Json}
      (keys : ∀ members, v.object? = some members → (members.map Prod.fst).Nodup)
      (members : ∀ members, v.object? = some members → ∀ m ∈ members, Distinct m.2)
      (items : ∀ items, v.array? = some items → ∀ x ∈ items, Distinct x) : Distinct v

theorem Distinct.scalar {v : Json} (object : v.object? = none) (array : v.array? = none) :
    v.Distinct :=
  .value (by simp [object]) (by simp [object]) (by simp [array])

@[simp]
theorem distinct_string (text : String) : (Json.string text).Distinct := .scalar rfl rfl

@[simp]
theorem distinct_null : Json.null.Distinct := .scalar rfl rfl

@[simp]
theorem distinct_number (n : Number) : (Json.number n).Distinct := .scalar rfl rfl

@[simp]
theorem distinct_object_iff {members : List (String × Json)} :
    (Json.object members).Distinct ↔
      (members.map Prod.fst).Nodup ∧ ∀ m ∈ members, m.2.Distinct := by
  constructor
  · rintro ⟨keys, values, -⟩
    exact ⟨keys members rfl, values members rfl⟩
  · rintro ⟨keys, values⟩
    exact .value (fun _ h => Option.some.inj h ▸ keys) (fun _ h => Option.some.inj h ▸ values)
      nofun

@[simp]
theorem distinct_array_iff {items : List Json} :
    (Json.array items).Distinct ↔ ∀ x ∈ items, x.Distinct := by
  constructor
  · rintro ⟨-, -, values⟩
    exact values items rfl
  · intro values
    exact .value nofun nofun fun _ h => Option.some.inj h ▸ values

end FormTree.Json
