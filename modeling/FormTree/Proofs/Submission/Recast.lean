import FormTree.Proofs.Json.Parts
import FormTree.Proofs.Submission.Scalar

/-!
Casting twice. A container that is cast part by part keeps its kind, so that the second cast
goes into the same parts under the same nodes; everything else is cast like a scalar, and what
that gives is either no container or the value itself.
-/

namespace FormTree

namespace Submission

variable {s : Schema} {v : Json}

theorem cast_leaf (s : Schema) (h : v.isContainer = false) : cast s v = castScalar s.types v := by
  cases v with
  | array _ | object _ => cases h
  | _ => rw [cast] <;> rintro _ ⟨⟩

/-- A scalar is cast to a scalar. -/
theorem isContainer_castScalar (types : TypeSet) (h : v.isContainer = false) :
    (castScalar types v).isContainer = false := by
  have first := coerced types v
  generalize castScalar types v = w at first
  cases first with
  | kept => exact h
  | _ => rfl

/-- Casts of scalars do not open containers: one that is not cast to `null` is kept. -/
theorem castScalar_container (types : TypeSet) (h : v.isContainer = true) :
    castScalar types v = .null ∨ castScalar types v = v := by
  have refused : numberOf? types v = none ∧ booleanOf? v = none ∧ textOf? v = none := by
    cases v with
    | array _ | object _ => exact ⟨rfl, rfl, rfl⟩
    | _ => cases h
  have first := coerced types v
  generalize castScalar types v = w at first
  cases first with
  | number accepts =>
      obtain ⟨-, m, number, -⟩ := castNumber?_eq_some_iff.1 accepts
      cases refused.1.symm.trans number
  | boolean _ accepts =>
      obtain ⟨-, b, boolean, -⟩ := castBoolean?_eq_some_iff.1 accepts
      cases refused.2.1.symm.trans boolean
  | text _ _ _ accepts =>
      obtain ⟨-, text, string, -⟩ := castString?_eq_some_iff.1 accepts
      cases refused.2.2.symm.trans string
  | null => exact .inl rfl
  | kept => exact .inr rfl

/-- What is cast like a scalar is cast like one again. -/
theorem cast_castScalar (once : cast s v = castScalar s.types v) :
    cast s (castScalar s.types v) = castScalar s.types v := by
  cases h : v.isContainer with
  | false => rw [cast_leaf s (isContainer_castScalar _ h), castScalar_castScalar]
  | true =>
      rcases castScalar_container s.types h with null | same
      · have again := castScalar_castScalar s.types v
        rw [null] at again ⊢
        rw [cast_leaf s rfl, again]
      · rw [same, once, same]

theorem castItems_again {items : List Json} (h : ∀ v ∈ items, ∀ s, cast s (cast s v) = cast s v)
    (s : Schema) : castItems s (castItems s items) = castItems s items := by
  rw [castItems_eq, castItems_eq, List.map_map]
  exact List.map_congr_left fun v hv => h v hv s

theorem castPositions_again {items : List Json}
    (h : ∀ v ∈ items, ∀ s, cast s (cast s v) = cast s v) (s : Schema) (place : Nat) :
    castPositions s place (castPositions s place items) = castPositions s place items := by
  induction items generalizing place with
  | nil => rfl
  | cons v items ih =>
      rw [List.forall_mem_cons] at h
      rw [castPositions, castPositions, h.1, ih h.2]

theorem castMembers_again {members : List (String × Json)}
    (h : ∀ m ∈ members, ∀ s, cast s (cast s m.2) = cast s m.2) (s : Schema) :
    castMembers s (castMembers s members) = castMembers s members := by
  rw [castMembers_eq, castMembers_eq, List.map_map]
  exact List.map_congr_left fun m hm => congrArg (Prod.mk m.1) (h m hm (entrySchema s m.1))

/-- Casting once is casting twice, whatever the node declares and whatever is cast. -/
theorem cast_cast (s : Schema) (v : Json) : cast s (cast s v) = cast s v := by
  induction v using Json.induct generalizing s with
  | leaf v h =>
      rw [cast_leaf s h]
      exact cast_castScalar (cast_leaf s h)
  | array items ih =>
      by_cases array : s.types.contains .array = true
      · have once (items : List Json) :
            cast s (.array items) = .array (castItems (s.items?.getD .implicitNull) items) := by
          rw [cast, if_pos array]
        rw [once, once, castItems_again ih]
      · by_cases object : s.types.contains .object = true
        · have once (items : List Json) :
              cast s (.array items) = .array (castPositions s 0 items) := by
            rw [cast, if_neg array, if_pos object]
          rw [once, once, castPositions_again ih]
        · have once : cast s (.array items) = castScalar s.types (.array items) := by
            rw [cast, if_neg array, if_neg object]
          rw [once]
          exact cast_castScalar once
  | object members ih =>
      by_cases object : s.types.contains .object = true
      · rw [cast_object object, cast_object object, castMembers_again ih]
      · have once : cast s (.object members) = castScalar s.types (.object members) := by
          rw [cast, if_neg object]
        rw [once]
        exact cast_castScalar once

end Submission

end FormTree
