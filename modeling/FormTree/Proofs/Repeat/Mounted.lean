import FormTree.Proofs.Repeat.Visits

/-!
Tables of one form at two places. The same fields have the same items, and the
fields that were visited are where the form is.
-/

namespace FormTree

def Visit.mounted (root : Path) (v : Visit) : Visit := { v with location := root ++ v.location }

def LiveItems.mounted (root : Path) (s : LiveItems) : LiveItems :=
  { s with location := root ++ s.location }

namespace RepeatTable

/-- The same fields are known, with the same items, wherever they are. -/
def Alike (t' t : RepeatTable) : Prop :=
  ∀ k, (t'.find? k).map (fun s => (s.indices, s.nextIndex)) =
    (t.find? k).map fun s => (s.indices, s.nextIndex)

namespace Alike

variable {t t' : RepeatTable} {root : Path} {visits : List Visit} {k : FieldKey}

theorem refl (t : RepeatTable) : t.Alike t := fun _ => rfl

theorem ensured (alike : t'.Alike t) (k : FieldKey) (count : Nat) (location location' : Path) :
    t'.ensured k count location' = { t.ensured k count location with location := location' } := by
  have same := alike k
  rw [RepeatTable.ensured, RepeatTable.ensured]
  cases hs : t.find? k with
  | none =>
      rw [hs] at same
      rw [Option.map_eq_none_iff.1 same]
  | some s =>
      rw [hs] at same
      obtain ⟨s', hs', items⟩ := Option.map_eq_some_iff.1 same
      obtain ⟨indices, mark⟩ := Prod.mk.inj items
      rw [hs', Option.getD_some, Option.getD_some, indices, mark]

theorem ensure (alike : t'.Alike t) (k : FieldKey) (count : Nat) (location location' : Path) :
    (t'.ensure k count location').Alike (t.ensure k count location) := by
  intro j
  rw [find?_ensure, find?_ensure]
  split
  · rw [alike.ensured k count location location']
    rfl
  · exact alike j

theorem visitAll (alike : t'.Alike t) (root : Path) (visits : List Visit) :
    (t'.visitAll (visits.map (Visit.mounted root))).Alike (t.visitAll visits) := by
  induction visits generalizing t t' with
  | nil => exact alike
  | cons v visits ih => exact ih (alike.ensure v.key v.count v.location _)

private theorem key_mounted (root : Path) (visits : List Visit) :
    (visits.map (Visit.mounted root)).map Visit.key = visits.map Visit.key := by
  rw [List.map_map]
  rfl

/-- A visited field has the same record in both tables, but for where it is. -/
theorem find?_of_visited (alike : t'.Alike t) (root : Path) (visited : k ∈ visits.map Visit.key) :
    ∃ s, (t.visitAll visits).find? k = some s ∧
      (t'.visitAll (visits.map (Visit.mounted root))).find? k = some (s.mounted root) := by
  induction visits generalizing t t' with
  | nil => cases visited
  | cons v visits ih =>
      have after := alike.ensure v.key v.count v.location (root ++ v.location)
      by_cases later : k ∈ visits.map Visit.key
      · exact ih after later
      · obtain rfl : k = v.key := by
          rw [List.map_cons, List.mem_cons] at visited
          exact visited.resolve_right later
        have first := find?_visitAll_of_not_mem (t := t.ensure v.key v.count v.location) later
        rw [← key_mounted root] at later
        have second := find?_visitAll_of_not_mem
          (t := t'.ensure v.key v.count (root ++ v.location)) later
        rw [find?_ensure, if_pos rfl] at first second
        rw [alike.ensured v.key v.count v.location (root ++ v.location)] at second
        exact ⟨_, first, second⟩

/-- A field that was not visited has the record from before in both tables. -/
theorem find?_of_not_visited (root : Path) (other : k ∉ visits.map Visit.key) :
    (t.visitAll (visits.map (Visit.mounted root))).find? k = (t.visitAll visits).find? k := by
  rw [find?_visitAll_of_not_mem other]
  rw [← key_mounted root] at other
  exact find?_visitAll_of_not_mem other

end Alike
end RepeatTable
end FormTree
