import FormTree.Path
import FormTree.Json.Record

/-!
Segments and paths as JSON. A path is the list of its segments.
-/

namespace FormTree

namespace Control

def name : Control → String
  | .addMore => "add_more"
  | .remove => "remove"

def ofName? (name : String) : Option Control :=
  if name = "add_more" then some .addMore else if name = "remove" then some .remove else none

end Control

/-- An index or count that fits 64 bits. -/
def Json.index? (v : Json) : Option Nat :=
  v.nat?.bind fun n => if n ≤ maxIndex then some n else none

namespace Segment

def toJson : Segment → Json
  | .property name => .object [("property", .string name)]
  | .index n => .object [("index", .ofNat n)]
  | .wrapper => .string "wrapper"
  | .control kind => .object [("control", .string kind.name)]

def ofJson? : Json → Option Segment
  | .string name => if name = "wrapper" then some .wrapper else none
  | .object [(kind, v)] =>
    if kind = "property" then v.string?.map .property
    else if kind = "index" then v.index?.map .index
    else if kind = "wrapper" then (if v = .null then some .wrapper else none)
    else if kind = "control" then (v.choice?.bind Control.ofName?).map .control
    else none
  | _ => none

end Segment

namespace Path

def toJson (p : Path) : Json := .array (p.map Segment.toJson)

def ofJson? (v : Json) : Option Path := v.list? Segment.ofJson?

end Path
end FormTree
