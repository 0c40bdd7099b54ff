import FormTree.PointerMap

/-!
Routing of validation failures to widgets. A failure whose pointer leads to a
widget of the tree becomes a message of that widget, and every other one joins
the summary on the root.
-/

namespace FormTree

/-- One violated constraint, at a pointer into the document. -/
structure Failure where
  message : String
  constraint : String
  pointer : String
deriving DecidableEq, Repr

/-- A message for the widget at a path. -/
structure Attachment where
  path : Path
  message : String
deriving DecidableEq, Repr

structure Routed where
  attachments : List Attachment
  generic : List String
deriving DecidableEq, Repr

namespace Failure

/-- The message with the name of the constraint. -/
def described (f : Failure) : String := f.message ++ " [constraint: " ++ f.constraint ++ "]"

/-- The widget that a failure belongs to. -/
def target? (m : PointerMap) (t : WidgetTree) (f : Failure) : Option Widget :=
  ((m.path? f.pointer).bind t.find?).map WidgetTree.widget

def attachment? (m : PointerMap) (t : WidgetTree) (f : Failure) : Option Attachment :=
  (f.target? m t).map fun w => ⟨w.path, w.title ++ ": " ++ f.described⟩

end Failure

namespace Routed

/-- Routes failures, each list in their order. -/
def ofFailures (m : PointerMap) (t : WidgetTree) (failures : List Failure) : Routed where
  attachments := failures.filterMap fun f => f.attachment? m t
  generic := (failures.filter fun f => (f.attachment? m t).isNone).map Failure.described

def summaryLead : String :=
  "Invalid data, please make sure all data is valid according to the schema. " ++
    "Schema validation returned the following errors: "

/-- The message for all failures that have no widget. -/
def summary? (r : Routed) : Option String :=
  if r.generic.isEmpty then none else some (summaryLead ++ ", ".intercalate r.generic)

/-- Adds the messages to their widgets and the summary to the root. -/
def mergeInto (r : Routed) (t : WidgetTree) : WidgetTree :=
  let t := r.attachments.foldl (fun t a => t.addError a.path a.message) t
  match r.summary? with
  | some summary => t.withError summary
  | none => t

end Routed
end FormTree
