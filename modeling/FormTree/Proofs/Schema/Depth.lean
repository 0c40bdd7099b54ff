import FormTree.Proofs.Schema.Accepted

/-!
What normalization rules out: nodes below the limit, and nodes whose type asks for
parts that they do not have. The types of a node are looked at twice, for the first
one with parts and for the first one that is not `null`; where the second has
parts, it is the first one, too.
-/

namespace FormTree

theorem TypeSet.structural?_of_primary? {types : TypeSet} {t : JsonType}
    (primary : types.primary? = some t) (parts : t = .array ∨ t = .object) :
    types.structural? = some t := by
  obtain ⟨_, before, after, rfl, nulls⟩ := List.find?_eq_some_iff_append.1 primary
  refine List.find?_eq_some_iff_append.2 ⟨by simpa using parts, before, after, rfl, ?_⟩
  intro u hu
  have null : u = .null := by simpa using nulls u hu
  rw [null]
  rfl

namespace Schema

/-- The node is of a kind that goes with its first type other than `null`. -/
structure Typed (s : Schema) : Prop where
  array : s.types.primary? = some .array →
    s.isConst = true ∨ s.enumValues?.isSome = true ∨ s.items?.isSome = true
  object : s.types.primary? = some .object →
    s.isConst = true ∨ s.enumValues?.isSome = true ∨ s.properties?.isSome = true

/-- The node and all below it that fields are made of are typed, and none of them is more steps
away from the root than the limit. -/
inductive Within (limit : Nat) : Nat → Schema → Prop
  | node {depth : Nat} {s : Schema} (depth_le : depth ≤ limit) (typed : s.Typed)
      (properties : ∀ ps, s.properties? = some ps → ∀ m ∈ ps, Within limit (depth + 1) m.2)
      (items : ∀ i, s.items? = some i → Within limit (depth + 1) i) : Within limit depth s

namespace Within

variable {limit depth : Nat} {s : Schema}

theorem depth_le (h : s.Within limit depth) : depth ≤ limit := by
  cases h; assumption

theorem typed (h : s.Within limit depth) : s.Typed := by
  cases h; assumption

theorem property (h : s.Within limit depth) {ps : List (String × Schema)}
    (hs : s.properties? = some ps) {m : String × Schema} (hm : m ∈ ps) :
    m.2.Within limit (depth + 1) := by
  cases h with
  | node _ _ properties _ => exact properties ps hs m hm

theorem item (h : s.Within limit depth) {i : Schema} (hs : s.items? = some i) :
    i.Within limit (depth + 1) := by
  cases h with
  | node _ _ _ items => exact items i hs

end Within

theorem typed_of_normalize {limit depth : Nat} {loc : List String} {v : Json} {s : Schema}
    (h : normalize limit depth loc v = .ok s) : depth ≤ limit ∧ s.Typed := by
  obtain ⟨keywords, rfl, -⟩ := normalize_ok h
  rw [normalize] at h
  split at h
  · cases h
  · next shallow =>
    refine ⟨Nat.not_lt.1 shallow, ?_⟩
    obtain ⟨types, -, h⟩ := bind_eq_ok.1 h
    obtain ⟨o, ho, h⟩ := bind_eq_ok.1 h
    cases outlined_of_outline ho with
    | const _ =>
        cases h
        exact ⟨fun _ => .inl rfl, fun _ => .inl rfl⟩
    | enum _ _ =>
        cases h
        exact ⟨fun _ => .inr (.inl rfl), fun _ => .inr (.inl rfl)⟩
    | scalar _ first =>
        cases h
        constructor
        · intro primary
          cases first.symm.trans (TypeSet.structural?_of_primary? primary (.inl rfl))
        · intro primary
          cases first.symm.trans (TypeSet.structural?_of_primary? primary (.inr rfl))
    | array _ first =>
        obtain ⟨found, -, h⟩ := bind_eq_ok.1 h
        cases found with
        | none => cases h
        | some items =>
            cases h
            refine ⟨fun _ => .inr (.inr rfl), fun primary => ?_⟩
            cases first.symm.trans (TypeSet.structural?_of_primary? primary (.inr rfl))
    | object _ first =>
        obtain ⟨properties, -, h⟩ := bind_eq_ok.1 h
        cases properties with
        | nil => cases h
        | cons p properties =>
            obtain ⟨required, -, h⟩ := bind_eq_ok.1 h
            obtain ⟨items, -, h⟩ := bind_eq_ok.1 h
            cases h
            refine ⟨fun primary => ?_, fun _ => .inr (.inr rfl)⟩
            cases first.symm.trans (TypeSet.structural?_of_primary? primary (.inl rfl))

/-- Whatever a value normalizes to keeps to the limit. -/
theorem within_of_normalize {limit depth : Nat} {loc : List String} {v : Json} {s : Schema}
    (h : normalize limit depth loc v = .ok s) : s.Within limit depth := by
  revert depth loc v
  refine induct (motive := fun s => ∀ {depth loc v}, normalize limit depth loc v = .ok s →
    s.Within limit depth) ?_ s
  intro s properties items _ depth loc v h
  obtain ⟨shallow, typed⟩ := typed_of_normalize h
  obtain ⟨keywords, rfl, -, object, parts⟩ := normalize_ok h
  refine .node shallow typed ?_ ?_
  · intro ps hps m hm
    obtain ⟨-, members, -, hmembers⟩ := object ps hps
    obtain ⟨_, -, hnode⟩ := (normalizeMembers_ok hmembers).2 m hm
    exact properties ps hps m hm hnode
  · intro i hi
    obtain ⟨_, -, hnode⟩ := parts i (.inl hi)
    exact items i hi hnode

end Schema
end FormTree
