import FormTree.Repeat.Key
import FormTree.Repeat.LiveItems
import FormTree.SortedMap

/-!
The table of all repeated fields, which is what a form keeps from one build to
the next. A mark says whether items came or went since the last build.
-/

namespace FormTree

structure RepeatTable where
  fields : SortedMap FieldKey LiveItems
  rebuild : Bool
deriving DecidableEq

namespace RepeatTable

def empty : RepeatTable := ⟨SortedMap.empty, false⟩

instance : Inhabited RepeatTable := ⟨empty⟩

def find? (t : RepeatTable) (k : FieldKey) : Option LiveItems := t.fields.find? k

def size (t : RepeatTable) : Nat := t.fields.size

/-- The indices in use of a field; none where the field is unknown. -/
def indices (t : RepeatTable) (k : FieldKey) : List Nat :=
  ((t.find? k).map LiveItems.indices).getD []

/-- Replaces the record of a field, brought in order. -/
def set (t : RepeatTable) (k : FieldKey) (s : LiveItems) : RepeatTable :=
  { t with fields := t.fields.insert k s.normalized }

/-- The record of a field, with `count` items where it is new, moved to a place
in the widget tree. -/
def ensured (t : RepeatTable) (k : FieldKey) (count : Nat) (location : Path) : LiveItems :=
  { (t.find? k).getD (.ofCount count []) with location }

/-- Makes sure that a field has a record and notes where it is. -/
def ensure (t : RepeatTable) (k : FieldKey) (count : Nat) (location : Path) : RepeatTable :=
  { t with fields := t.fields.insert k (t.ensured k count location) }

/-- Adds an item to a field, from no items where the field is unknown. The
record is put back in any case, and the mark is set where there is an item. -/
def add (t : RepeatTable) (k : FieldKey) : Option Nat × RepeatTable :=
  match ((t.find? k).getD .empty).add with
  | (none, s) => (none, { t with fields := t.fields.insert k s })
  | (some i, s) => (some i, { fields := t.fields.insert k s, rebuild := true })

/-- An addition that gives an index away, with what it leaves. -/
def add? (t : RepeatTable) (k : FieldKey) : Option (Nat × RepeatTable) :=
  (t.add k).1.map (·, (t.add k).2)

/-- Removes an item of a field and says whether it was there. -/
def remove (t : RepeatTable) (k : FieldKey) (i : Nat) : Bool × RepeatTable :=
  match (t.find? k).bind (·.remove? i) with
  | some s => (true, { fields := t.fields.insert k s, rebuild := true })
  | none => (false, { t with rebuild := true })

/-- The place of a field in the widget tree, as last seen. -/
def location? (t : RepeatTable) (k : FieldKey) : Option Path :=
  (t.find? k).map LiveItems.location

def clearRebuild (t : RepeatTable) : RepeatTable := { t with rebuild := false }

end RepeatTable
end FormTree
