import FormTree.Proofs.Repeat.Growth
import FormTree.Proofs.SortedMap

/-!
Fields made sure of one after the other. Where no field comes twice, each has the
record that it would have alone, and every other record stays as it is.
-/

namespace FormTree

/-- A repeated field where a compilation meets it, with the number of items of its input. -/
structure Visit where
  key : FieldKey
  count : Nat
  location : Path

namespace RepeatTable

def visitAll (t : RepeatTable) (visits : List Visit) : RepeatTable :=
  visits.foldl (fun t v => t.ensure v.key v.count v.location) t

variable {t : RepeatTable} {visits : List Visit} {k : FieldKey}

theorem visitAll_append (t : RepeatTable) (visits visits' : List Visit) :
    t.visitAll (visits ++ visits') = (t.visitAll visits).visitAll visits' :=
  List.foldl_append

theorem grows_visitAll (t : RepeatTable) (visits : List Visit) : t.Grows (t.visitAll visits) := by
  induction visits generalizing t with
  | nil => exact grows_refl t
  | cons v visits ih => exact (grows_ensure t v.key v.count v.location).trans (ih _)

theorem rebuild_visitAll (t : RepeatTable) (visits : List Visit) :
    (t.visitAll visits).rebuild = t.rebuild := by
  induction visits generalizing t with
  | nil => rfl
  | cons v visits ih => exact ih (t.ensure v.key v.count v.location)

theorem find?_visitAll_of_not_mem (h : k ∉ visits.map Visit.key) :
    (t.visitAll visits).find? k = t.find? k := by
  induction visits generalizing t with
  | nil => rfl
  | cons v visits ih =>
      rw [List.map_cons, List.mem_cons, not_or] at h
      have rest := ih (t := t.ensure v.key v.count v.location) h.2
      rw [find?_ensure, if_neg h.1] at rest
      exact rest

theorem find?_visitAll {v : Visit} (nodup : (visits.map Visit.key).Nodup) (h : v ∈ visits) :
    (t.visitAll visits).find? v.key = some (t.ensured v.key v.count v.location) := by
  induction visits generalizing t with
  | nil => cases h
  | cons w visits ih =>
      rw [List.map_cons, List.nodup_cons] at nodup
      rcases List.mem_cons.1 h with rfl | h
      · have kept := find?_visitAll_of_not_mem (t := t.ensure v.key v.count v.location) nodup.1
        rw [find?_ensure, if_pos rfl] at kept
        exact kept
      · have other : v.key ≠ w.key := fun same => nodup.1 (same ▸ List.mem_map_of_mem h)
        have rest := ih (t := t.ensure w.key w.count w.location) nodup.2 h
        simp only [ensured, find?_ensure, if_neg other] at rest
        exact rest

/-- A record that is at its place already stays as it is. -/
theorem ensure_eq_self {s : LiveItems} (known : t.find? k = some s) (count : Nat) :
    t.ensure k count s.location = t := by
  have same : t.ensured k count s.location = s := by rw [ensured, known]; rfl
  rw [ensure, same, SortedMap.insert_eq_self known]

end RepeatTable
end FormTree
