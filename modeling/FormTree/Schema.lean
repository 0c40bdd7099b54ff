import FormTree.Path

/-!
Normalized schemas. Each node has one of five shapes, with its declared types
and annotations beside it; whatever else a schema says is left to validation.
-/

namespace FormTree

inductive JsonType where
  | null
  | boolean
  | integer
  | number
  | string
  | array
  | object
deriving DecidableEq, Repr

namespace JsonType

def name : JsonType → String
  | .null => "null"
  | .boolean => "boolean"
  | .integer => "integer"
  | .number => "number"
  | .string => "string"
  | .array => "array"
  | .object => "object"

def all : List JsonType := [.null, .boolean, .integer, .number, .string, .array, .object]

def ofName? (name : String) : Option JsonType := all.find? fun t => t.name == name

theorem ofName?_name (t : JsonType) : ofName? t.name = some t := by cases t <;> decide

end JsonType

/-- Declared types in order, each once. -/
abbrev TypeSet := List JsonType

namespace TypeSet

def ofTypes (types : List JsonType) : TypeSet := types.eraseDups

def primary? (types : TypeSet) : Option JsonType := types.find? (· != .null)

def isNumeric (types : TypeSet) : Bool := types.contains .integer || types.contains .number

/-- The first type that has parts. -/
def structural? (types : TypeSet) : Option JsonType :=
  types.find? fun t => t == .array || t == .object

end TypeSet

/-- What a node is made of, over the nodes below it. An object's `items` is used
only for entries that it does not declare. -/
inductive Shape (σ : Type) where
  | const (value : Json)
  | enum (values : List Json)
  | array (items : σ)
  | object (properties : List (String × σ)) (required : List String) (items : Option σ)
  | scalar

structure Schema where
  types : TypeSet
  title : Option String
  description : Option String
  default : Option Json
  format : Option String
  shape : Shape Schema

namespace Schema

/-- The node that stands where a schema says nothing: a scalar that may only be
`null`. -/
def implicitNull : Schema := ⟨[.null], none, none, none, none, .scalar⟩

instance : Inhabited Schema := ⟨implicitNull⟩

def properties? (s : Schema) : Option (List (String × Schema)) :=
  match s.shape with
  | .object properties _ _ => some properties
  | _ => none

def items? (s : Schema) : Option Schema :=
  match s.shape with
  | .array items => some items
  | _ => none

def enumValues? (s : Schema) : Option (List Json) :=
  match s.shape with
  | .enum values => some values
  | _ => none

def isConst (s : Schema) : Bool :=
  match s.shape with
  | .const _ => true
  | _ => false

def isEmail (s : Schema) : Bool := s.format == some "email"

/-- The node at a path of property names and item indices; every index leads to
the one schema of the items, and synthetic segments lead nowhere else. -/
def nodeAt? : Path → Schema → Option Schema
  | [], s => some s
  | .property name :: rest, s => (s.properties?.bind (·.lookup name)).bind (nodeAt? rest)
  | .index _ :: rest, s => s.items?.bind (nodeAt? rest)
  | .wrapper :: rest, s | .control _ :: rest, s => nodeAt? rest s

mutual

def toJson : Schema → Json
  | ⟨types, title, description, default, format, shape⟩ =>
    .object
      [("types", .array (types.map fun t => .string t.name)),
        ("title", .ofOption .string title),
        ("description", .ofOption .string description),
        ("default", default.getD .null),
        ("format", .ofOption .string format),
        ("kind", shapeJson shape)]

def shapeJson : Shape Schema → Json
  | .const value => .object [("kind", .string "const"), ("value", value)]
  | .enum values => .object [("kind", .string "enum"), ("value", .array values)]
  | .array items => .object [("kind", .string "array"), ("value", toJson items)]
  | .object properties required items =>
    .object
      [("kind", .string "object"),
        ("value", .object
          [("properties", .object (propertiesJson properties)),
            ("required", .array (required.map .string)),
            ("items", itemsJson items)])]
  | .scalar => .object [("kind", .string "scalar")]

def propertiesJson : List (String × Schema) → List (String × Json)
  | [] => []
  | (name, s) :: rest => (name, toJson s) :: propertiesJson rest

def itemsJson : Option Schema → Json
  | none => .null
  | some s => toJson s

end

end Schema

/-- A normalized schema beside the JSON it was made from. -/
structure SchemaDocument where
  raw : Json
  root : Schema

end FormTree
