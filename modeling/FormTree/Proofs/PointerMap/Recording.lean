import FormTree.PointerMap
import FormTree.Proofs.SortedMap
import Mathlib.Data.List.Perm.Basic

/-!
What is left of entries recorded one after the other. A pointer recorded twice in
a row keeps its second path; where no pointer is left twice, and no path was
recorded twice, the two maps are inverse to each other.
-/

namespace FormTree.PointerMap

/-- Entries settle to those that are left: an entry goes where the next one has its pointer. -/
inductive Settles : List (String × Path) → List (String × Path) → Prop
  | nil : Settles [] []
  | keep {e : String × Path} {entries left : List (String × Path)} (h : Settles entries left) :
      Settles (e :: entries) (e :: left)
  | replace {pointer : String} {p p' : Path} {entries left : List (String × Path)}
      (h : Settles entries left) :
      Settles ((pointer, p) :: (pointer, p') :: entries) ((pointer, p') :: left)

theorem Settles.append {entries left entries' left' : List (String × Path)}
    (h : Settles entries left) (h' : Settles entries' left') :
    Settles (entries ++ entries') (left ++ left') := by
  induction h with
  | nil => exact h'
  | keep _ ih => exact .keep ih
  | replace _ ih => exact .replace ih

/-- Both maps hold exactly these entries. -/
structure Holds (m : PointerMap) (entries : List (String × Path)) : Prop where
  byPointer : ∀ q p, m.byPointer.find? q = some p ↔ (q, p) ∈ entries
  byPath : ∀ q p, m.byPath.find? p = some q ↔ (q, p) ∈ entries

theorem holds_empty : empty.Holds [] := by
  constructor <;> intro q p <;> simp [empty, SortedMap.empty, SortedMap.find?, SortedMap.findIn?]

theorem find?_byPointer_record (m : PointerMap) (pointer : String) (p : Path) (q : String) :
    (m.record pointer p).byPointer.find? q =
      if q = pointer then some p else m.byPointer.find? q := by
  split
  · next h => rw [h]; exact SortedMap.find?_insert_self ..
  · next h => exact SortedMap.find?_insert_of_ne _ _ h

theorem find?_byPath_record (m : PointerMap) (pointer : String) (p r : Path) :
    (m.record pointer p).byPath.find? r =
      if r = p then some pointer
      else if m.byPointer.find? pointer = some r then none
      else m.byPath.find? r := by
  by_cases h : r = p
  · subst h
    rw [if_pos rfl]
    exact SortedMap.find?_insert_self ..
  · rw [if_neg h, record, SortedMap.find?_insert_of_ne _ _ h]
    cases m.byPointer.find? pointer with
    | none => rfl
    | some previous =>
        by_cases hr : previous = r
        · rw [hr, if_pos rfl]
          exact SortedMap.find?_erase_self ..
        · rw [if_neg fun e => hr (Option.some.inj e)]
          exact SortedMap.find?_erase_of_ne _ fun e => hr e.symm

/-- A new path takes the place of the path that its pointer had. -/
theorem Holds.record {m : PointerMap} {entries : List (String × Path)} (h : m.Holds entries)
    (pointer : String) {p : Path} (fresh : p ∉ entries.map Prod.snd) :
    (m.record pointer p).Holds (entries.filter (fun e => e.1 ≠ pointer) ++ [(pointer, p)]) := by
  have absent : ∀ q, (q, p) ∉ entries := fun q hq => fresh (List.mem_map_of_mem hq)
  constructor
  · intro q r
    rw [find?_byPointer_record]
    by_cases hq : q = pointer
    · simp [hq, eq_comm]
    · simp [hq, h.byPointer]
  · intro q r
    rw [find?_byPath_record]
    by_cases hr : r = p
    · subst hr
      simp only [if_pos, Option.some_inj, List.mem_append, List.mem_filter, absent, false_and,
        false_or, List.mem_singleton, Prod.mk.injEq, and_true]
      exact eq_comm
    · rw [if_neg hr]
      have only : ∀ q', (q', r) ∈ entries → (q, r) ∈ entries → q' = q := by
        intro q' hq' hq
        have first := (h.byPath q' r).2 hq'
        rw [(h.byPath q r).2 hq] at first
        exact (Option.some.inj first).symm
      simp only [h.byPointer, List.mem_append, List.mem_filter, List.mem_singleton,
        Prod.mk.injEq, hr, and_false, or_false, decide_eq_true_eq]
      split
      · next hprevious =>
        constructor
        · intro h
          cases h
        · exact fun hq => absurd (only pointer hprevious hq.1).symm hq.2
      · next hprevious =>
        rw [h.byPath]
        refine ⟨fun hq => ⟨hq, ?_⟩, And.left⟩
        rintro rfl
        exact hprevious hq

private theorem filter_of_fresh {held : List (String × Path)} {pointer : String}
    (h : pointer ∉ held.map Prod.fst) : held.filter (fun e => e.1 ≠ pointer) = held := by
  rw [List.filter_eq_self]
  intro e he
  have : e.1 ≠ pointer := fun same => h (same ▸ List.mem_map_of_mem he)
  simpa using this

/-- Entries with fresh paths leave what they settle to, beside what was there. -/
theorem Holds.foldl {m : PointerMap} {held entries left : List (String × Path)}
    (h : m.Holds held) (settles : Settles entries left)
    (pointers : ((held ++ left).map Prod.fst).Nodup)
    (paths : ((held ++ entries).map Prod.snd).Nodup) :
    (entries.foldl (fun m e => m.record e.1 e.2) m).Holds (held ++ left) := by
  induction settles generalizing m held with
  | nil => rwa [List.append_nil]
  | @keep e entries left _ ih =>
      obtain ⟨pointer, p⟩ := e
      have newPointer : pointer ∉ held.map Prod.fst := by
        rw [List.map_append, List.nodup_append] at pointers
        exact fun hp => pointers.2.2 pointer hp pointer List.mem_cons_self rfl
      have newPath : p ∉ held.map Prod.snd := by
        rw [List.map_append, List.nodup_append] at paths
        exact fun hp => paths.2.2 p hp p List.mem_cons_self rfl
      have recorded := h.record pointer newPath
      rw [filter_of_fresh newPointer] at recorded
      rw [List.foldl_cons, List.append_cons]
      exact ih recorded (List.append_cons .. ▸ pointers) (List.append_cons .. ▸ paths)
  | @replace pointer p p' entries left _ ih =>
      have newPointer : pointer ∉ held.map Prod.fst := by
        rw [List.map_append, List.nodup_append] at pointers
        exact fun hp => pointers.2.2 pointer hp pointer List.mem_cons_self rfl
      have kept : ((held ++ (pointer, p') :: entries).map Prod.snd).Nodup :=
        paths.sublist ((List.sublist_cons_self _ _).append_left held |>.map Prod.snd)
      rw [List.map_append, List.nodup_append] at paths
      have newPath : p ∉ held.map Prod.snd :=
        fun hp => paths.2.2 p hp p List.mem_cons_self rfl
      have newPath' : p' ∉ (held ++ [(pointer, p)]).map Prod.snd := by
        intro hp
        rw [List.map_append, List.mem_append] at hp
        rcases hp with hp | hp
        · exact paths.2.2 p' hp p' (List.mem_cons_of_mem _ List.mem_cons_self) rfl
        · obtain rfl := List.mem_singleton.1 hp
          exact (List.nodup_cons.1 paths.2.1).1 List.mem_cons_self
      have recorded := h.record pointer newPath
      rw [filter_of_fresh newPointer] at recorded
      have replaced := recorded.record pointer newPath'
      rw [List.filter_append, filter_of_fresh newPointer] at replaced
      rw [List.foldl_cons, List.foldl_cons, List.append_cons]
      refine ih ?_ (List.append_cons .. ▸ pointers) (List.append_cons .. ▸ kept)
      simpa using replaced

theorem holds_of_settles {entries left : List (String × Path)} (settles : Settles entries left)
    (pointers : (left.map Prod.fst).Nodup) (paths : (entries.map Prod.snd).Nodup) :
    (entries.foldl (fun m e => m.record e.1 e.2) empty).Holds left :=
  holds_empty.foldl settles pointers paths

end FormTree.PointerMap
