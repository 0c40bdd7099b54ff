import FormTree.Json.Printer
import FormTree.Repeat.Key

/-!
Events in the life of a form, which are logged as one JSON object a line.
-/

namespace FormTree

inductive ItemAction where
  | add
  | remove
deriving DecidableEq, Repr

def ItemAction.name : ItemAction → String
  | .add => "add"
  | .remove => "remove"

inductive Event where
  | formCompiled (fieldCount repeatableCount : Nat)
  | multivalueChanged (field : String) (action : ItemAction) (delta : Nat) (applied : Bool)
    (indices : List Nat)
  | submissionValidated (errorCount fieldErrorCount genericErrorCount : Nat)
deriving DecidableEq, Repr

namespace Event

def itemChanged (k : FieldKey) (action : ItemAction) (delta : Nat) (applied : Bool)
    (indices : List Nat) : Event :=
  .multivalueChanged k.path.toText action delta applied indices

def name : Event → String
  | .formCompiled _ _ => "form_compiled"
  | .multivalueChanged _ _ _ _ _ => "multivalue_changed"
  | .submissionValidated _ _ _ => "submission_validated"

def members : Event → List (String × Json)
  | .formCompiled fieldCount repeatableCount =>
    [("field_count", .ofNat fieldCount), ("repeatable_count", .ofNat repeatableCount)]
  | .multivalueChanged field action delta applied indices =>
    [("field", .string field), ("action", .string action.name), ("delta", .ofNat delta),
      ("applied", .bool applied), ("indices", .array (indices.map .ofNat))]
  | .submissionValidated errorCount fieldErrorCount genericErrorCount =>
    [("error_count", .ofNat errorCount), ("field_error_count", .ofNat fieldErrorCount),
      ("generic_error_count", .ofNat genericErrorCount)]

def toJson (e : Event) : Json := .object (("event", .string e.name) :: e.members)

def line (time : Nat) (e : Event) : String :=
  (Json.object (("event", .string e.name) :: ("timestamp_ms", .ofNat time) :: e.members)).compact
    ++ "\n"

end Event
end FormTree
