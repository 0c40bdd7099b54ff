import FormTree.Schema
import FormTree.Json.Printer

/-!
Normalization of a schema in one pass. A node is a constant, else an
enumeration with at least one value, else what its first structural type says.
Errors name the node by the reference tokens that lead to it.
-/

namespace FormTree

/-- The nesting accepted where no other limit is given. -/
def defaultMaxDepth : Nat := 32

/-- Why a schema is not accepted, at the node that `loc` leads to. -/
inductive SchemaError where
  | notObject (loc : List String)
  | unknownType (name : Json) (loc : List String)
  | typeNotStrings (loc : List String)
  | enumNotArray (loc : List String)
  | itemsNotObject (loc : List String)
  | propertiesNotObject (loc : List String)
  | requiredNotArray (loc : List String)
  | requiredNotStrings (loc : List String)
  | noItems (loc : List String)
  | noProperties (loc : List String)
  | rootNotObject
  | depthExceeded (loc : List String) (maxDepth : Nat)
deriving Repr, DecidableEq

namespace SchemaError

/-- Malformed keywords, well-formed schemas that no form can be made of, and
nesting beyond the limit. -/
inductive Category where
  | invalid
  | unsupported
  | depthExceeded
deriving DecidableEq, Repr

def category : SchemaError → Category
  | .noItems _ | .noProperties _ | .rootNotObject => .unsupported
  | .depthExceeded _ _ => .depthExceeded
  | _ => .invalid

def quoted (loc : List String) : String := "'" ++ Pointer.join loc ++ "'"

def message : SchemaError → String
  | .notObject loc => "invalid schema: schema node at " ++ quoted loc ++ " must be an object"
  | .unknownType name loc =>
    "invalid schema: unknown type " ++ name.compact ++ " at " ++ quoted loc
  | .typeNotStrings loc =>
    "invalid schema: 'type' at " ++ quoted loc ++ " must be a string or an array of strings"
  | .enumNotArray loc => "invalid schema: 'enum' at " ++ quoted loc ++ " must be an array"
  | .itemsNotObject loc => "invalid schema: 'items' at " ++ quoted loc ++ " must be an object"
  | .propertiesNotObject loc =>
    "invalid schema: 'properties' at " ++ quoted loc ++ " must be an object"
  | .requiredNotArray loc => "invalid schema: 'required' at " ++ quoted loc ++ " must be an array"
  | .requiredNotStrings loc =>
    "invalid schema: 'required' at " ++ quoted loc ++ " must list strings"
  | .noItems loc =>
    "unsupported schema at " ++ quoted loc ++ ": array schema declares no items"
  | .noProperties loc =>
    "unsupported schema at " ++ quoted loc ++ ": object schema declares no properties"
  | .rootNotObject =>
    "unsupported schema at '': root schema must be an object with properties"
  | .depthExceeded loc maxDepth =>
    "schema nesting exceeds maximum depth " ++ toString maxDepth ++ " at " ++ quoted loc

end SchemaError

namespace Schema

def typeNamed (loc : List String) (v : Json) : Except SchemaError JsonType :=
  match v.string?.bind JsonType.ofName? with
  | some t => .ok t
  | none => .error (.unknownType v loc)

def readTypes (loc : List String) : Option Json → Except SchemaError TypeSet
  | none => .ok []
  | some (.string name) => do return [← typeNamed loc (.string name)]
  | some (.array names) => do return TypeSet.ofTypes (← names.mapM (typeNamed loc))
  | some _ => .error (.typeNotStrings loc)

def sortNames (names : List String) : List String :=
  names.eraseDups.mergeSort fun a b => compare a b != .gt

def readRequired (loc : List String) : Option Json → Except SchemaError (List String)
  | none => .ok []
  | some (.array names) => do
    return sortNames (← names.mapM fun name =>
      match name with
      | .string s => .ok s
      | _ => .error (.requiredNotStrings loc))
  | some _ => .error (.requiredNotArray loc)

def readEnum (loc : List String) : Option Json → Except SchemaError (Option (List Json))
  | none | some (.array []) => .ok none
  | some (.array values) => .ok (some values)
  | some _ => .error (.enumNotArray loc)

/-- What a node is by its own keywords, before the nodes below it. -/
inductive Outline where
  | const (value : Json)
  | enum (values : List Json)
  | array
  | object
  | scalar

/-- A constant comes before an enumeration, and that before the types. -/
def outline (loc : List String) (types : TypeSet) (keywords : List (String × Json)) :
    Except SchemaError Outline :=
  match keywords.lookup "const" with
  | some value => .ok (.const value)
  | none => do
    match ← readEnum loc (keywords.lookup "enum") with
    | some values => return .enum values
    | none =>
      match types.structural? with
      | none => return .scalar
      | some .array => return .array
      | some _ => return .object

mutual

/-- Normalizes the node that `loc` leads to, `depth` steps below the root. -/
def normalize (limit depth : Nat) (loc : List String) : Json → Except SchemaError Schema
  | .object keywords =>
    if limit < depth then .error (.depthExceeded loc limit)
    else do
      let types ← readTypes loc (keywords.lookup "type")
      let shape : Shape Schema ←
        match ← outline loc types keywords with
        | .const value => .ok (.const value)
        | .enum values => .ok (.enum values)
        | .scalar => .ok .scalar
        | .array => do
          match ← normalizeItems limit depth loc keywords with
          | some items => .ok (.array items)
          | none => .error (.noItems loc)
        | .object => do
          match ← normalizeProperties limit depth loc keywords with
          | [] => .error (.noProperties loc)
          | properties => do
            let required ← readRequired loc (keywords.lookup "required")
            let items ← normalizeItems limit depth loc keywords
            .ok (.object properties required items)
      return {
        types
        title := (keywords.lookup "title").bind Json.string?
        description := (keywords.lookup "description").bind Json.string?
        default := keywords.lookup "default"
        format := (keywords.lookup "format").bind Json.string?
        shape }
  | _ => if limit < depth then .error (.depthExceeded loc limit) else .error (.notObject loc)

/-- The node under `items`, if the keyword is there. -/
def normalizeItems (limit depth : Nat) (loc : List String) :
    List (String × Json) → Except SchemaError (Option Schema)
  | [] => .ok none
  | (key, v) :: rest =>
    if key = "items" then
      if v.isObject then do return some (← normalize limit (depth + 1) (loc ++ ["items"]) v)
      else .error (.itemsNotObject loc)
    else normalizeItems limit depth loc rest

/-- The nodes under `properties`; none where the keyword is missing. -/
def normalizeProperties (limit depth : Nat) (loc : List String) :
    List (String × Json) → Except SchemaError (List (String × Schema))
  | [] => .ok []
  | (key, v) :: rest =>
    if key = "properties" then
      match v with
      | .object members => normalizeMembers limit depth loc members
      | _ => .error (.propertiesNotObject loc)
    else normalizeProperties limit depth loc rest

def normalizeMembers (limit depth : Nat) (loc : List String) :
    List (String × Json) → Except SchemaError (List (String × Schema))
  | [] => .ok []
  | (name, v) :: rest => do
    let s ← normalize limit (depth + 1) (loc ++ ["properties", name]) v
    return (name, s) :: (← normalizeMembers limit depth loc rest)

end

end Schema

namespace SchemaDocument

/-- Normalizes a schema; its root has to be an object. -/
def ofJson (limit : Nat) (raw : Json) : Except SchemaError SchemaDocument := do
  let root ← Schema.normalize limit 0 [] raw
  match root.shape with
  | .object _ _ _ => return ⟨raw, root⟩
  | _ => throw .rootNotObject

def nodeAt? (d : SchemaDocument) (p : Path) : Option Schema := d.root.nodeAt? p

end SchemaDocument
end FormTree
