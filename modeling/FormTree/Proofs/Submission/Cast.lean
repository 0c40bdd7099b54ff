import FormTree.Submission.Cast

/-!
Casting part by part: an entry of an object is cast under the node of its key,
and an item of a list under the node of the items.
-/

namespace FormTree.Submission

theorem castItems_eq (s : Schema) (items : List Json) : castItems s items = items.map (cast s) := by
  induction items with
  | nil => rfl
  | cons v items ih => rw [castItems, ih, List.map_cons]

theorem castMembers_eq (s : Schema) (members : List (String × Json)) :
    castMembers s members = members.map fun m => (m.1, cast (entrySchema s m.1) m.2) := by
  induction members with
  | nil => rfl
  | cons m members ih => rw [castMembers, ih, List.map_cons]

theorem lookup_castMembers (s : Schema) (members : List (String × Json)) (key : String) :
    (castMembers s members).lookup key = (members.lookup key).map (cast (entrySchema s key)) := by
  induction members with
  | nil => rfl
  | cons m members ih =>
      obtain ⟨k, v⟩ := m
      rw [castMembers, List.lookup_cons, List.lookup_cons, ih]
      split
      · next h => rw [eq_of_beq h]; rfl
      · rfl

theorem cast_object {s : Schema} (h : s.types.contains .object = true)
    (members : List (String × Json)) :
    cast s (.object members) = .object (castMembers s members) := by
  rw [cast, if_pos h]

theorem cast_array {s items : Schema} (h : s.types.contains .array = true)
    (hi : s.items? = some items) (values : List Json) :
    cast s (.array values) = .array (values.map (cast items)) := by
  rw [cast, if_pos h, hi, Option.getD_some, castItems_eq]

theorem entrySchema_of_lookup {s s' : Schema} {properties : List (String × Schema)} {key : String}
    (hs : s.properties? = some properties) (h : properties.lookup key = some s') :
    entrySchema s key = s' := by
  obtain ⟨types, title, description, default, format, shape⟩ := s
  cases shape with
  | object properties' required rest =>
      cases hs
      change (properties.lookup key <|> rest).getD .implicitNull = s'
      rw [h]
      rfl
  | _ => cases hs

end FormTree.Submission
