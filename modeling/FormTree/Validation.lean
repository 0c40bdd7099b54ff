import FormTree.Validation.Grammar
import FormTree.Validation.Linking
import FormTree.Validation.Reading
import FormTree.Validator

/-!
Validation of documents against schemas of a draft. A schema that is not one by
the grammar of the draft, or that cannot be put to use, is rejected before any
document is looked at.
-/

namespace FormTree.Draft

def notASchema (d : Draft) : String := "the schema is not a schema of " ++ d.name

def checkSchema (d : Draft) (schema : Json) : Except ValidatorError Unit :=
  if Grammar.isSchema d schema && d.canUse schema then .ok () else .error (.schema d.notASchema)

/-- The checks that references lead to among some schemas, down to a depth. -/
def references (all : List Subschema) : Nat → References
  | 0 => fun _ _ _ _ => []
  | depth + 1 => fun base target p v =>
    match Subschema.follow? all base target with
    | some s => (Rules.ofSubschema s).check (references all depth) p v
    | none => []

/-- The violations of a schema by a document. No more references can follow one
another, unless they go in a circle, than the schema has characters, for each
level of the document. -/
def violations (d : Draft) (document schema : Json) : List Violation :=
  let root := Subschema.root d schema
  let depth := (schema.compact.length + 1) * (document.compact.length + 1)
  (Rules.ofSubschema root).check (references root.all depth) .root document

def validator (d : Draft) : Validator where
  checkSchema := d.checkSchema
  validate document schema := do
    d.checkSchema schema
    return (d.violations document schema).map Violation.toFailure

end FormTree.Draft
