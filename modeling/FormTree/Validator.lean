import FormTree.Route

/-!
What a form needs of a validator: a check of the schema itself, and the
failures of a document against a schema.
-/

namespace FormTree

inductive ValidatorError where
  | schema (reason : String)
  | internal (reason : String)
deriving DecidableEq, Repr

def ValidatorError.message : ValidatorError → String
  | .schema reason => "validator rejected schema: " ++ reason
  | .internal reason => "validator error: " ++ reason

structure Validator where
  checkSchema (schema : Json) : Except ValidatorError Unit
  validate (document schema : Json) : Except ValidatorError (List Failure)

end FormTree
