import FormTree.Hint
import FormTree.Schema

/-!
What decides the widget of a node: a hint, which may name a JSON type or any
widget, and otherwise the first declared type that is not `null`.
-/

namespace FormTree

inductive Resolution where
  | type (t : JsonType)
  | widget (name : String)
  | unresolved
deriving DecidableEq, Repr

def Schema.resolve (s : Schema) (h : Hint) : Resolution :=
  match h.widget with
  | some name =>
    match JsonType.ofName? name with
    | some t => .type t
    | none => .widget name
  | none =>
    match s.types.primary? with
    | some t => .type t
    | none => .unresolved

end FormTree
