import FormTree.Proofs.Submission.Recast

/-!
The shape that casting keeps. Scalars stay scalars, lists keep their places and objects their keys
in order, at any depth; only a container without parts may become `null`. So a pointer into a value
leads into what the value is cast to as well.
-/

namespace FormTree

namespace Json

mutual

/-- The second value has the containers of the first one, or `null` for a container without
parts. -/
inductive SameShape : Json → Json → Prop
  | scalar {v w : Json} (left : v.isContainer = false) (right : w.isContainer = false) :
      SameShape v w
  | noItems : SameShape (.array []) .null
  | noMembers : SameShape (.object []) .null
  | array {items items' : List Json} (places : SameItems items items') :
      SameShape (.array items) (.array items')
  | object {members members' : List (String × Json)} (entries : SameMembers members members') :
      SameShape (.object members) (.object members')

inductive SameItems : List Json → List Json → Prop
  | nil : SameItems [] []
  | cons {v w : Json} {items items' : List Json} (first : SameShape v w)
      (rest : SameItems items items') : SameItems (v :: items) (w :: items')

inductive SameMembers : List (String × Json) → List (String × Json) → Prop
  | nil : SameMembers [] []
  | cons (key : String) {v w : Json} {members members' : List (String × Json)}
      (first : SameShape v w) (rest : SameMembers members members') :
      SameMembers ((key, v) :: members) ((key, w) :: members')

end

variable {v w x : Json} {items items' : List Json} {members members' : List (String × Json)}

theorem SameItems.of_each {f : Json → Json} (each : ∀ v ∈ items, SameShape v (f v)) :
    SameItems items (items.map f) := by
  induction items with
  | nil => exact .nil
  | cons v items ih =>
      rw [List.forall_mem_cons] at each
      exact .cons each.1 (ih each.2)

theorem SameMembers.of_each {f : String × Json → Json}
    (each : ∀ m ∈ members, SameShape m.2 (f m)) :
    SameMembers members (members.map fun m => (m.1, f m)) := by
  induction members with
  | nil => exact .nil
  | cons m members ih =>
      rw [List.forall_mem_cons] at each
      exact .cons m.1 each.1 (ih each.2)

theorem SameShape.refl (v : Json) : SameShape v v := by
  induction v using Json.induct with
  | leaf v leaf => exact .scalar leaf leaf
  | array items ih =>
      have places := SameItems.of_each (f := id) ih
      rw [List.map_id] at places
      exact .array places
  | object members ih =>
      have entries := SameMembers.of_each (f := Prod.snd) ih
      rw [List.map_id'] at entries
      exact .object entries

theorem SameItems.getElem? (same : SameItems items items') {n : Nat} (held : items[n]? = some v) :
    ∃ w, items'[n]? = some w ∧ SameShape v w := by
  induction items generalizing items' n with
  | nil => cases held
  | cons u items ih =>
      cases same with
      | cons first rest =>
          cases n with
          | zero =>
              cases held
              exact ⟨_, rfl, first⟩
          | succ n => exact ih rest held

theorem SameMembers.lookup (same : SameMembers members members') {key : String}
    (held : members.lookup key = some v) :
    ∃ w, members'.lookup key = some w ∧ SameShape v w := by
  induction members generalizing members' with
  | nil => cases held
  | cons m members ih =>
      cases same with
      | cons key' first rest =>
          rw [List.lookup_cons] at held ⊢
          split at held
          · cases held
            exact ⟨_, rfl, first⟩
          · exact ih rest held

/-- A pointer into a value leads to the same place of a value of its shape. -/
theorem SameShape.resolve? (same : SameShape v w) {tokens : List String}
    (found : Pointer.resolve? tokens v = some x) :
    ∃ y, Pointer.resolve? tokens w = some y ∧ SameShape x y := by
  induction tokens generalizing v w with
  | nil =>
      cases found
      exact ⟨w, rfl, same⟩
  | cons t tokens ih =>
      cases same with
      | scalar left _ =>
          cases v with
          | array _ | object _ => cases left
          | _ => cases found
      | noItems =>
          rw [Pointer.resolve?] at found
          obtain ⟨i, -, found⟩ := Option.bind_eq_some_iff.1 found
          cases found
      | noMembers => cases found
      | array places =>
          rw [Pointer.resolve?] at found ⊢
          obtain ⟨i, index, found⟩ := Option.bind_eq_some_iff.1 found
          obtain ⟨u, held, found⟩ := Option.bind_eq_some_iff.1 found
          obtain ⟨u', held', shape⟩ := places.getElem? held
          rw [index, Option.bind_some, held', Option.bind_some]
          exact ih shape found
      | object entries =>
          rw [Pointer.resolve?] at found ⊢
          obtain ⟨u, held, found⟩ := Option.bind_eq_some_iff.1 found
          obtain ⟨u', held', shape⟩ := entries.lookup held
          rw [held', Option.bind_some]
          exact ih shape found

end Json

namespace Submission

open Json (SameShape SameItems SameMembers)

variable {s : Schema} {v : Json} {items : List Json} {members : List (String × Json)}

/-- A container is cast to `null` only if it has no parts. -/
theorem castScalar_sameShape (types : TypeSet) (v : Json) : SameShape v (castScalar types v) := by
  cases h : v.isContainer with
  | false => exact .scalar h (isContainer_castScalar types h)
  | true =>
      rcases castScalar_container types h with null | same
      · have first := coerced types v
        rw [null] at first ⊢
        cases first with
        | null _ _ accepts =>
            have empty := (castNull?_eq_some_iff.1 accepts).1.2
            cases v with
            | array items =>
                obtain rfl := List.isEmpty_iff.1 empty
                exact .noItems
            | object members =>
                obtain rfl := List.isEmpty_iff.1 empty
                exact .noMembers
            | _ => cases h
        | kept => cases h
      · rw [same]
        exact .refl v

theorem castPositions_sameItems (each : ∀ v ∈ items, ∀ s, SameShape v (cast s v)) (s : Schema)
    (place : Nat) : SameItems items (castPositions s place items) := by
  induction items generalizing place with
  | nil => exact .nil
  | cons v items ih =>
      rw [List.forall_mem_cons] at each
      exact .cons (each.1 _) (ih each.2 (place + 1))

theorem cast_sameShape (s : Schema) (v : Json) : SameShape v (cast s v) := by
  induction v using Json.induct generalizing s with
  | leaf v leaf =>
      rw [cast_leaf s leaf]
      exact castScalar_sameShape s.types v
  | array items ih =>
      rw [cast]
      split
      · rw [castItems_eq]
        exact .array (.of_each fun v hv => ih v hv _)
      · split
        · exact .array (castPositions_sameItems ih s 0)
        · exact castScalar_sameShape s.types (.array items)
  | object members ih =>
      rw [cast]
      split
      · rw [castMembers_eq]
        exact .object (.of_each fun m hm => ih m hm _)
      · exact castScalar_sameShape s.types (.object members)

/-- Casting keeps the containers of a value, so a pointer into it still leads somewhere. -/
theorem cast_keeps_places (s : Schema) (v : Json) :
    SameShape v (cast s v) ∧ ∀ pointer x, Pointer.lookup? pointer v = some x →
      ∃ y, Pointer.lookup? pointer (cast s v) = some y ∧ SameShape x y := by
  refine ⟨cast_sameShape s v, fun pointer x found => ?_⟩
  obtain ⟨tokens, read, found⟩ := Option.bind_eq_some_iff.1 found
  rw [Pointer.lookup?, read, Option.bind_some]
  exact (cast_sameShape s v).resolve? found

example : cast .implicitNull (.array []) = .null ∧
    cast .implicitNull (.array [.array []]) = .array [.array []] := ⟨rfl, rfl⟩

end Submission

end FormTree
