import FormTree.Path

/-!
Keys of repeated fields: the path of the parent in the schema and the name of
the field under it.
-/

namespace FormTree

structure FieldKey where
  parents : Path
  field : String
deriving DecidableEq, Repr

namespace FieldKey

/-- Keys are ordered by parents, then by name. -/
instance : Ord FieldKey where
  compare := compareLex (compareOn parents) (compareOn field)

instance : Std.TransOrd FieldKey :=
  inferInstanceAs (Std.TransCmp (compareLex (compareOn parents) (compareOn field)))

instance : Std.LawfulEqOrd FieldKey where
  compare_self := Std.ReflCmp.compare_self
  eq_of_compare {a b} h := by
    change compareLex (compareOn parents) (compareOn field) a b = .eq at h
    simp only [compareLex_eq_eq, compareOn, Std.LawfulEqOrd.compare_eq_iff_eq] at h
    cases a; cases b; simp_all

/-- The key of the field at a path; the root of a form is no field. -/
def ofPath? (p : Path) : Option FieldKey :=
  p.withoutSynthetic.getLast?.map fun s => ⟨p.withoutSynthetic.dropLast, s.key⟩

/-- The index that a text denotes: decimal digits, after a plus sign or not. -/
def indexOfText? (text : String) : Option Nat :=
  let digits :=
    match text.toList with
    | '+' :: rest => rest
    | cs => cs
  if digits ≠ [] ∧ digits.all Char.isDigit ∧ Nat.ofDigitChars 10 digits 0 ≤ maxIndex then
    some (Nat.ofDigitChars 10 digits 0)
  else none

/-- The path of the field in the schema. A name that denotes an index is read
as one. -/
def path (k : FieldKey) : Path :=
  k.parents ++ [((indexOfText? k.field).map Segment.index).getD (.property k.field)]

end FieldKey
end FormTree
