import FormTree.Entries
import FormTree.Path.Json
import FormTree.Widget

/-!
Widget trees as JSON. Attributes that are absent or empty are not written, and
those may be missing when a tree is read; a default value of `null` is written
but reads as absent.
-/

namespace FormTree

namespace Widget

namespace Kind

def names : List (Kind × String) :=
  [(.textfield, "textfield"), (.email, "email"), (.number, "number"), (.integer, "integer"),
    (.checkbox, "checkbox"), (.radios, "radios"), (.checkboxes, "checkboxes"),
    (.repeatable, "repeatable"), (.group, "group"), (.markup, "markup"),
    (.removableItem, "removable_item"), (.addControl, "add_control"),
    (.removeControl, "remove_control"), (.unresolved, "unresolved")]

def toJson : Kind → Json
  | .custom name => .object [("custom", .string name)]
  | kind => .string ((names.lookup kind).getD "")

def ofName? (name : String) : Option Kind := (names.find? fun e => e.2 == name).map (·.1)

def ofJson? : Json → Option Kind
  | .object [("custom", v)] => v.string?.map .custom
  | v => v.choice?.bind ofName?

end Kind

namespace Cardinality

def toJson (c : Cardinality) : Json :=
  .object [("max_index", .ofOption .ofNat c.maxIndex), ("unlimited", .bool c.unlimited)]

def ofJson? (v : Json) : Option Cardinality :=
  match v.record? ["max_index", "unlimited"] with
  | some [maxIndex, some (.bool unlimited)] =>
    (Json.nullable Json.index? maxIndex).map fun m => ⟨m, unlimited⟩
  | _ => none

end Cardinality

def member {α : Type} (name : String) (f : α → Json) (a : Option α) : List (String × Json) :=
  (a.map fun a => (name, f a)).toList

def listMember {α : Type} (name : String) (f : List α → Json) : List α → List (String × Json)
  | [] => []
  | l => [(name, f l)]

def textsJson (texts : List String) : Json := .array (texts.map .string)

def optionsJson (options : List (String × String)) : Json :=
  .object (options.map fun o => (o.1, .string o.2))

def members (w : Widget) (children : List (String × Json)) : List (String × Json) :=
  [("name", .string w.name),
    ("path", w.path.toJson),
    ("prop_path", w.propPath.toJson),
    ("kind", w.kind.toJson),
    ("title", .string w.title)] ++
  member "description" .string w.description ++
  member "placeholder" .string w.placeholder ++
  member "default_value" id w.defaultValue ++
  [("required", .bool w.required),
    ("enabled", .bool w.enabled),
    ("visible", .bool w.visible)] ++
  listMember "options" optionsJson w.options ++
  member "markup" .string w.markup ++
  children ++
  member "cardinality" Cardinality.toJson w.cardinality ++
  member "delta" .ofNat w.delta ++
  listMember "errors" textsJson w.errors

def texts? (v : Json) : Option (List String) := v.list? Json.string?

def options? (v : Json) : Option (List (String × String)) := do
  let members ← v.object?
  let options ← members.mapM fun m => m.2.string?.map fun s => (m.1, s)
  return Entries.ofList options

/-- The widget that the members of an object describe. -/
def ofMembers? (members : List (String × Json)) : Option Widget := do
  let get (key : String) : Option Json := members.lookup key
  return {
    name := ← (← get "name").string?
    path := ← Path.ofJson? (← get "path")
    propPath := ← Path.ofJson? (← get "prop_path")
    kind := ← Kind.ofJson? (← get "kind")
    title := ← (← get "title").string?
    description := ← Json.nullable Json.string? (get "description")
    placeholder := ← Json.nullable Json.string? (get "placeholder")
    defaultValue := ← Json.nullable some (get "default_value")
    required := ← (← get "required").bool?
    enabled := ← (← get "enabled").bool?
    visible := ← (← get "visible").bool?
    options := ← Json.optional options? [] (get "options")
    markup := ← Json.nullable Json.string? (get "markup")
    cardinality := ← Json.nullable Cardinality.ofJson? (get "cardinality")
    delta := ← Json.nullable Json.index? (get "delta")
    errors := ← Json.optional texts? [] (get "errors") }

end Widget

namespace WidgetTree

mutual

def toJson : WidgetTree → Json
  | .node w cs => .object (w.members (Widget.listMember "children" Json.array (toJsonAll cs)))

def toJsonAll : List WidgetTree → List Json
  | [] => []
  | t :: rest => toJson t :: toJsonAll rest

end

mutual

def ofJson? : Json → Option WidgetTree
  | .object members => do
    let w ← Widget.ofMembers? members
    return .node w (← childrenOf? members)
  | _ => none

/-- The trees under `children`, which may be missing. -/
def childrenOf? : List (String × Json) → Option (List WidgetTree)
  | [] => some []
  | (key, v) :: rest =>
    if key = "children" then
      match v with
      | .array items => ofJsonAll? items
      | _ => none
    else childrenOf? rest

def ofJsonAll? : List Json → Option (List WidgetTree)
  | [] => some []
  | v :: rest => do return (← ofJson? v) :: (← ofJsonAll? rest)

end

end WidgetTree
end FormTree
