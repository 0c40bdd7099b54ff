import FormTree.Submission.Cast
import FormTree.Submission.Clean
import FormTree.Validator

/-!
A submission from raw input to messages on widgets: the input is cleaned, cast
and validated, and the failures are routed into the tree it was entered in.
-/

namespace FormTree.Submission

def prepare (d : SchemaDocument) (raw : Json) : Json := cast d.root (clean raw)

structure Outcome where
  document : Json
  tree : WidgetTree
  fieldErrors : List Attachment
  genericErrors : List String
  summary : Option String
  errorCount : Nat

def Outcome.isValid (o : Outcome) : Bool := o.errorCount == 0

def process (v : Validator) (d : SchemaDocument) (root : Path) (t : WidgetTree) (raw : Json) :
    Except ValidatorError Outcome := do
  let document := prepare d raw
  let failures ← v.validate document d.raw
  let routed := Routed.ofFailures (.ofTree t root) t failures
  return {
    document
    tree := routed.mergeInto t
    fieldErrors := routed.attachments
    genericErrors := routed.generic
    summary := routed.summary?
    errorCount := failures.length }

end FormTree.Submission
