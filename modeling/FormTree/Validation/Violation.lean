import FormTree.Path
import FormTree.Route

/-!
Violations of a schema, at a place in the schema and a place in the document,
and the failures they are reported as.
-/

namespace FormTree

/-- One violation. Both places are JSON pointers. -/
structure Violation where
  message : String
  schemaPath : String
  instancePath : String
  /-- The name of a required property that is not there. -/
  missing : Option String := none
deriving DecidableEq, Repr

namespace Violation

/-- The name of a constraint that has no place in the schema. -/
def rootConstraint : String := "schema"

/-- The last piece of the place in the schema that has a character. -/
def constraint (v : Violation) : String :=
  match ((Pointer.pieces [] v.schemaPath.toList).filter (· ≠ [])).getLast? with
  | some piece => String.ofList piece
  | none => rootConstraint

/-- The place in the document; for a missing property the place where it
should be. -/
def pointer (v : Violation) : String :=
  match v.missing with
  | some name => v.instancePath ++ "/" ++ Pointer.escape name
  | none => v.instancePath

def toFailure (v : Violation) : Failure := ⟨v.message, v.constraint, v.pointer⟩

end Violation
end FormTree
