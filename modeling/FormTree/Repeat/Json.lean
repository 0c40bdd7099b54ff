import FormTree.Path.Json
import FormTree.Repeat.Table

/-!
The table of repeated fields as it is stored: a record for each field, in the
order of the keys. Reading brings every record in order, lets the last of two
records of one key stand, and starts without the rebuild mark.
-/

namespace FormTree

namespace LiveItems

def members (s : LiveItems) : List (String × Json) :=
  [("indices", .array (s.indices.map .ofNat)),
    ("next_index", .ofNat s.nextIndex),
    ("array_parents", s.location.toJson)]

def toJson (s : LiveItems) : Json := .object s.members

def indices? (v : Json) : Option (List Nat) := v.list? Json.index?

/-- A record on its own, with all of its fields. -/
def ofJson? (v : Json) : Option LiveItems :=
  match v.record? ["indices", "next_index", "array_parents"] with
  | some [some indices, some nextIndex, some location] => do
    return ⟨← indices? indices, ← nextIndex.index?, ← Path.ofJson? location⟩
  | _ => none

end LiveItems

namespace FieldKey

def members (k : FieldKey) : List (String × Json) :=
  [("parents", k.parents.toJson), ("field", .string k.field)]

def ofJson? (v : Json) : Option FieldKey :=
  match v.record? ["parents", "field"] with
  | some [some parents, some (.string field)] => (Path.ofJson? parents).map (⟨·, field⟩)
  | _ => none

end FieldKey

namespace RepeatTable

def fieldJson (entry : FieldKey × LiveItems) : Json :=
  .object (entry.1.members ++ entry.2.members)

def toJson (t : RepeatTable) : Json :=
  .object [("fields", .array (t.fields.entries.map fieldJson))]

/-- One stored record; the mark and the place may be missing. -/
def field? (v : Json) : Option (FieldKey × LiveItems) :=
  match v.record? ["parents", "field", "indices", "next_index", "array_parents"] with
  | some [some parents, some (.string field), some indices, nextIndex, location] => do
    let key : FieldKey := ⟨← Path.ofJson? parents, field⟩
    let items : LiveItems :=
      { indices := ← LiveItems.indices? indices
        nextIndex := ← Json.optional Json.index? 0 nextIndex
        location := ← Json.optional Path.ofJson? [] location }
    return (key, items.normalized)
  | _ => none

def ofJson? (v : Json) : Option RepeatTable :=
  match v.record? ["fields"] with
  | some [fields] =>
    (Json.optional (Json.list? field?) [] fields).map fun entries => ⟨.ofList entries, false⟩
  | _ => none

end RepeatTable
end FormTree
