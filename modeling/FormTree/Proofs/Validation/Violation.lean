import FormTree.Proofs.Json.Pointer
import FormTree.Validation.Violation
import Mathlib.Data.List.Induction

/-!
What a violation is reported under. The constraint is the last piece of the place in the
schema, and a property that is missing has the pointer that it would have.
-/

namespace FormTree

namespace Pointer

variable {cs piece : List Char}

/-- The last of the pieces between slashes that has a character. -/
structure LastPiece (cs piece : List Char) : Prop where
  nonempty : piece ≠ []
  whole : '/' ∉ piece
  parts : ∃ before slashes, cs = before ++ (piece ++ slashes) ∧
    (∀ c ∈ before.getLast?, c = '/') ∧ ∀ c ∈ slashes, c = '/'

/-- A text has a last piece unless it has slashes only. -/
theorem exists_lastPiece (cs : List Char) :
    (∃ piece, LastPiece cs piece) ∨ ∀ c ∈ cs, c = '/' := by
  induction cs using List.reverseRecOn with
  | nil => exact .inr nofun
  | append_singleton cs c ih =>
      by_cases slash : c = '/'
      · have only : ∀ d ∈ [c], d = '/' := List.forall_mem_singleton.2 slash
        refine ih.imp ?_ fun all => List.forall_mem_append.2 ⟨all, only⟩
        rintro ⟨piece, nonempty, whole, before, slashes, rfl, ends, all⟩
        exact ⟨piece, nonempty, whole, before, slashes ++ [c], by simp, ends,
          List.forall_mem_append.2 ⟨all, only⟩⟩
      · left
        have alone (ends : ∀ d ∈ cs.getLast?, d = '/') : LastPiece (cs ++ [c]) [c] :=
          ⟨List.cons_ne_nil _ _, by simpa using Ne.symm slash, cs, [], rfl, ends, nofun⟩
        rcases ih with ⟨piece, nonempty, whole, before, slashes, rfl, ends, all⟩ | all
        · rcases List.eq_nil_or_concat slashes with rfl | ⟨front, last, rfl⟩
          · refine ⟨piece ++ [c], by simp, ?_, before, [], by simp, ends, nofun⟩
            simpa [whole] using Ne.symm slash
          · refine ⟨[c], alone fun d hd => all d ?_⟩
            rw [List.concat_eq_append, ← List.append_assoc, ← List.append_assoc,
              List.getLast?_concat] at hd
            cases hd
            simp
        · exact ⟨[c], alone fun d hd => all d (List.mem_of_getLast? hd)⟩

private theorem filter_pieces_slashes (all : ∀ c ∈ cs, c = '/') :
    (pieces [] cs).filter (· ≠ []) = [] := by
  induction cs with
  | nil => rfl
  | cons c cs ih =>
      rw [List.forall_mem_cons] at all
      rw [all.1, pieces]
      exact ih all.2

/-- Of the pieces with a character the last piece comes last. -/
private theorem getLast?_pieces (h : LastPiece cs piece) :
    ((pieces [] cs).filter (· ≠ [])).getLast? = some piece := by
  obtain ⟨nonempty, whole, before, slashes, rfl, ends, all⟩ := h
  have tail : (pieces [] (piece ++ slashes)).filter (· ≠ []) = [piece] := by
    rw [pieces_append [] piece whole, List.append_nil]
    cases slashes with
    | nil => simp [pieces, nonempty]
    | cons c slashes =>
        rw [List.forall_mem_cons] at all
        rw [all.1, pieces, List.reverse_reverse, List.filter_cons_of_pos (by simpa using nonempty),
          filter_pieces_slashes all.2]
  rcases List.eq_nil_or_concat before with rfl | ⟨front, last, rfl⟩
  · rw [List.nil_append, tail]
    rfl
  · rw [List.concat_eq_append, List.getLast?_concat] at ends
    rw [List.concat_eq_append, ends last rfl, List.append_assoc, List.singleton_append,
      pieces_append_slash, List.filter_append, tail, List.getLast?_concat]

end Pointer

namespace Violation

open Pointer (LastPiece)

variable {v : Violation}

/-- The constraint is the last piece of the place in the schema, if there is one. -/
theorem constraint_cases (v : Violation) :
    (∃ piece, LastPiece v.schemaPath.toList piece ∧ v.constraint = String.ofList piece) ∨
      (∀ c ∈ v.schemaPath.toList, c = '/') ∧ v.constraint = rootConstraint := by
  rcases Pointer.exists_lastPiece v.schemaPath.toList with ⟨piece, last⟩ | all
  · refine .inl ⟨piece, last, ?_⟩
    rw [constraint, Pointer.getLast?_pieces last]
  · refine .inr ⟨all, ?_⟩
    rw [constraint, Pointer.filter_pieces_slashes all]
    rfl

/-- Under the pointer of an object, a missing property has the pointer of a property there. -/
theorem pointer_of_missing {name : String} {tokens : List String} (missing : v.missing = some name)
    (place : v.instancePath = Pointer.join tokens) :
    v.pointer = Pointer.join (tokens ++ [name]) := by
  rw [pointer, missing, place, Pointer.join_concat]

end Violation
end FormTree
