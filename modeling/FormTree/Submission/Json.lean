import FormTree.Submission
import FormTree.Widget.Json

/-!
The outcome of a submission as JSON.
-/

namespace FormTree

def Attachment.toJson (a : Attachment) : Json :=
  .object [("path", a.path.toJson), ("message", .string a.message)]

namespace Routed

def attachmentsJson (attachments : List Attachment) : Json :=
  .array (attachments.map Attachment.toJson)

def toJson (r : Routed) : Json :=
  .object
    [("attachments", attachmentsJson r.attachments), ("generic", Widget.textsJson r.generic)]

end Routed

def Submission.Outcome.toJson (o : Submission.Outcome) : Json :=
  .object
    [("document", o.document),
      ("tree", o.tree.toJson),
      ("field_errors", Routed.attachmentsJson o.fieldErrors),
      ("generic_errors", Widget.textsJson o.genericErrors),
      ("summary", .ofOption .string o.summary),
      ("error_count", .ofNat o.errorCount)]

end FormTree
