/-!
Outcomes that may be errors, taken apart.
-/

namespace FormTree

/-- A sequence of two steps gives a result when both do. -/
theorem bind_eq_ok {ε α β : Type} {x : Except ε α} {f : α → Except ε β} {b : β} :
    (x >>= f) = .ok b ↔ ∃ a, x = .ok a ∧ f a = .ok b := by
  cases x <;> simp [bind, Except.bind]

/-- After a step with a result comes the next one. -/
theorem bind_of_ok {ε α β : Type} {x : Except ε α} {a : α} (h : x = .ok a)
    (f : α → Except ε β) : (x >>= f) = f a := by
  rw [h]
  rfl

/-- Nothing comes after an error. -/
theorem bind_eq_error {ε α β : Type} {x : Except ε α} {e : ε} (h : x = .error e)
    (f : α → Except ε β) : (x >>= f) = .error e := by
  rw [h]
  rfl

/-- An error comes from the first step, or from the next one after its result. -/
theorem bind_error_cases {ε α β : Type} {x : Except ε α} {f : α → Except ε β} {e : ε}
    (h : (x >>= f) = .error e) : x = .error e ∨ ∃ a, x = .ok a ∧ f a = .error e := by
  cases x with
  | error _ =>
      cases h
      exact .inl rfl
  | ok a => exact .inr ⟨a, rfl, h⟩

/-- The error of a run over a list is that of one of its members. -/
theorem exists_of_mapM_error {ε α β : Type} {f : α → Except ε β} {l : List α} {e : ε}
    (h : l.mapM f = .error e) : ∃ a ∈ l, f a = .error e := by
  induction l with
  | nil => cases h
  | cons a l ih =>
      rw [List.mapM_cons] at h
      rcases bind_error_cases h with first | ⟨b, -, h⟩
      · exact ⟨a, List.mem_cons_self, first⟩
      · rcases bind_error_cases h with rest | ⟨_, -, h⟩
        · obtain ⟨x, hx, refused⟩ := ih rest
          exact ⟨x, List.mem_cons_of_mem _ hx, refused⟩
        · cases h

end FormTree
