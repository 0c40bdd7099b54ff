import FormTree.Files
import FormTree.Proofs.Except
import Mathlib.Tactic.SplitIfs

/-!
The store of files. A file holds what was last written to it, and the way to it is
not changed by the write.
-/

namespace FormTree.Files

variable {f f' : Files} {place start : List String} {names : List String} {path : String}
  {content : ByteArray}

theorem target_put_self : (f.put place content).target place = .file content := by
  rw [target, put, List.lookup_cons_self]

private theorem lookup_filter_of_ne {entries : List (List String × ByteArray)}
    (apart : start ≠ place) :
    (entries.filter fun e => e.1 != place).lookup start = entries.lookup start := by
  induction entries with
  | nil => rfl
  | cons e entries ih =>
      by_cases same : e.1 = place
      · rw [List.filter_cons_of_neg (by simp [same]), ih, List.lookup_cons, same,
          beq_eq_false_iff_ne.2 apart]
      · rw [List.filter_cons_of_pos (by simp [same]), List.lookup_cons, List.lookup_cons, ih]

/-- A directory stays one when a file is written. -/
theorem target_put_directory (directory : f.target start = .directory) (apart : start ≠ place) :
    (f.put place content).target start = .directory := by
  rw [target] at directory ⊢
  rw [put, List.lookup_cons, beq_eq_false_iff_ne.2 apart, lookup_filter_of_ne apart]
  cases found : f.entries.lookup start with
  | some _ => rw [found] at directory; cases directory
  | none =>
      rw [found] at directory
      refine if_pos ?_
      by_cases above : isAbove start || f.entries.any fun e => start.isPrefixOf e.1
      · rw [Bool.or_eq_true, List.any_eq_true] at above ⊢
        refine above.imp_right ?_
        rintro ⟨e, he, below⟩
        by_cases same : e.1 = place
        · exact ⟨_, List.mem_cons_self, same ▸ below⟩
        · exact ⟨e, List.mem_cons_of_mem _ (List.mem_filter.2 ⟨he, by simpa using same⟩), below⟩
      · rw [if_neg above] at directory
        cases directory

/-- The names on the way to a file lead to it still when it is written. -/
theorem follow_put (leads : f.follow start names = .ok place)
    (file : f.target place ≠ .directory) :
    (f.put place content).follow start names = .ok place := by
  induction names generalizing start with
  | nil => exact leads
  | cons name names ih =>
      rw [follow] at leads ⊢
      cases here : f.target start with
      | file _ => rw [here] at leads; cases leads
      | vacant => rw [here] at leads; cases leads
      | directory =>
          have apart : start ≠ place := fun same => file (same ▸ here)
          rw [here] at leads
          rw [target_put_directory here apart]
          dsimp only at leads ⊢
          split_ifs at leads ⊢ <;> exact ih leads

theorem exists_of_write (h : f.write path content = .ok f') :
    ∃ start names place, route path = .ok (start, names) ∧ f.follow start names = .ok place ∧
      f.target place ≠ .directory ∧ f' = f.put place content := by
  obtain ⟨⟨place, before⟩, writable, h⟩ := bind_eq_ok.1 h
  cases h
  obtain ⟨⟨start, names⟩, route, writable⟩ := bind_eq_ok.1 writable
  refine ⟨start, names, place, route, ?_⟩
  dsimp only at writable
  cases slash : beforeSlash? names with
  | some _ =>
      rw [slash] at writable
      obtain ⟨_, -, refused⟩ := bind_eq_ok.1 writable
      obtain ⟨_, refused, -⟩ := bind_eq_ok.1 refused
      cases refused
  | none =>
      rw [slash] at writable
      obtain ⟨found, leads, writable⟩ := bind_eq_ok.1 writable
      cases target : f.target found with
      | directory => rw [target] at writable; cases writable
      | file _ | vacant =>
          rw [target] at writable
          cases writable
          exact ⟨leads, by rw [target]; nofun, rfl⟩

/-- A file that was written is read as it was written. -/
theorem read_of_write (h : f.write path content = .ok f') : f'.read path = .ok content := by
  obtain ⟨start, names, place, route, leads, file, rfl⟩ := exists_of_write h
  have resolved : (f.put place content).resolve path = .ok place := by
    rw [resolve, bind_of_ok route]
    exact follow_put leads file
  rw [read, bind_of_ok resolved, target_put_self]
  rfl

end FormTree.Files
