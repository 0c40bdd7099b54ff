import FormTree.Validation.Rules
import FormTree.Validation.Subschema

/-!
The rules that a schema of a draft states. Each keyword gives one rule at most;
some take another keyword of the same schema into account. A schema inside
another may name a draft and a URI of its own.
-/

namespace FormTree

/-- A keyword with its value and the rules of the schemas in it. -/
structure Keyword where
  name : String
  value : Json
  /-- The rules of the value, read as one schema. -/
  one : Rules := .never
  /-- The rules of the items of the value. -/
  many : List Rules := []
  /-- The rules of the members of the value. -/
  named : List (String × Rules) := []

namespace Keyword

/-- How the schemas in the value of a keyword are found. -/
inductive Role where
  | plain
  | schema
  | schemas
  | map

/-- The role of the value under a keyword. -/
def role (name : String) (v : Json) : Role :=
  match name with
  | "properties" => .map
  | "anyOf" | "oneOf" | "allOf" => .schemas
  | "items" => if v.array?.isSome then .schemas else .schema
  | "additionalProperties" | "contains" | "not" => .schema
  | _ => .plain

def find? (all : List Keyword) (name : String) : Option Keyword :=
  all.find? fun k => k.name == name

def number? : Json → Option Number
  | .number n => some n
  | _ => none

def maxCount : Nat := UInt64.size - 1

/-- The value of a count; a whole binary64 number is one too, up to the
greatest. -/
def count? : Json → Option Nat
  | .number (.int n) => some n.toNat
  | .number (.float x) => x.toInt?.map fun n => min n.toNat maxCount
  | _ => none

def typesOf (v : Json) : List JsonType :=
  match v with
  | .array names => names.filterMap fun n => n.string?.bind JsonType.ofName?
  | v => (v.string?.bind JsonType.ofName?).toList

def texts (v : Json) : List String := (v.array?.getD []).filterMap Json.string?

def isSet (all : List Keyword) (name : String) : Bool :=
  ((find? all name).bind fun k => k.value.bool?) == some true

/-- A limit in numbers. In the first draft a flag beside it excludes the limit
itself. -/
def limit (d : Draft) (all : List Keyword) (flag : String) (v : Json)
    (inclusive exclusive : Number → Assertion) : Option (Constraint Rules) :=
  (number? v).map fun n =>
    .assertion (if !d.isModern && isSet all flag then exclusive n else inclusive n)

def countLimit (v : Json) (f : Nat → Assertion) : Option (Constraint Rules) :=
  (count? v).map fun n => .assertion (f n)

/-- The rule about members that `properties` does not declare. -/
def others (all : List Keyword) (k : Keyword) : Option (Constraint Rules) :=
  let declared := (find? all "properties").map Keyword.named
  match k.value with
  | .bool true => none
  | .bool false => some ((declared.map .closedProperties).getD .noProperties)
  | _ => some (.allProperties (declared.getD []) k.one)

/-- The rule about the declared properties, unless the one about the others
takes it over. -/
def declared (all : List Keyword) (k : Keyword) : Option (Constraint Rules) :=
  match (find? all "additionalProperties").map Keyword.value with
  | some (.bool false) | some (.object _) => none
  | _ => some (.properties k.named)

/-- The rule about the items of an array, all alike or each on its own. -/
def itemRule (k : Keyword) : Option (Constraint Rules) :=
  match k.value with
  | .bool true => none
  | .array _ => some (.tuple k.many)
  | _ => some (.items k.one)

/-- A rule that came with the second draft. -/
def modern (d : Draft) (c : Option (Constraint Rules)) : Option (Constraint Rules) :=
  if d.isModern then c else none

/-- The rule of a keyword among all keywords of its schema, of which references
are relative to a URI. -/
def rule? (d : Draft) (base : Option Uri) (all : List Keyword) (k : Keyword) :
    Option (Constraint Rules) :=
  let v := k.value
  match k.name with
  | "type" =>
    let types := typesOf v
    some (.assertion (.types types (d.isModern && types.length = 1)))
  | "enum" => v.array?.map fun values => .assertion (.enum values)
  | "const" => modern d (some (.assertion (.const v)))
  | "required" => some (.required (texts v))
  | "minLength" => countLimit v .minLength
  | "maxLength" => countLimit v .maxLength
  | "minItems" => countLimit v .minItems
  | "maxItems" => countLimit v .maxItems
  | "minProperties" => countLimit v .minProperties
  | "maxProperties" => countLimit v .maxProperties
  | "minimum" => limit d all "exclusiveMinimum" v .minimum .exclusiveMinimum
  | "maximum" => limit d all "exclusiveMaximum" v .maximum .exclusiveMaximum
  | "exclusiveMinimum" =>
    modern d ((number? v).map fun n => .assertion (.exclusiveMinimum n))
  | "exclusiveMaximum" =>
    modern d ((number? v).map fun n => .assertion (.exclusiveMaximum n))
  | "multipleOf" => (number? v).map fun n => .assertion (.multipleOf n)
  | "uniqueItems" => if v = .bool true then some (.assertion .uniqueItems) else none
  | "properties" => declared all k
  | "additionalProperties" => others all k
  | "items" => itemRule k
  | "contains" => modern d (some (.contains k.one))
  | "anyOf" => some (.anyOf k.many)
  | "oneOf" => some (.oneOf k.many)
  | "allOf" => some (.allOf k.many)
  | "not" => some (.not v k.one)
  | "$ref" => v.string?.map (.reference k.name base)
  | "$dynamicRef" =>
    if d = .draft2020_12 then v.string?.map (.reference k.name base) else none
  | _ => none

/-- The rules of keywords. Before the vocabularies a reference stands for the
whole schema. -/
def rules (d : Draft) (base : Option Uri) (all : List Keyword) : Rules :=
  let counted :=
    match find? all "$ref" with
    | some k => if d.hasVocabularies then all else [k]
    | none => all
  .all (counted.filterMap (rule? d base all))

end Keyword

namespace Rules

mutual

def ofJson (outer : Draft) (base : Option Uri) : Json → Rules
  | .bool false => .never
  | .object members =>
    let d := outer.within (.object members)
    let base := Subschema.rebase d base (.object members)
    Keyword.rules d base (keywords d base members)
  | _ => .all []

def keywords (d : Draft) (base : Option Uri) : List (String × Json) → List Keyword
  | [] => []
  | (name, v) :: rest =>
    let k : Keyword :=
      match Keyword.role name v with
      | .plain => { name, value := v }
      | .schema => { name, value := v, one := ofJson d base v }
      | .schemas =>
        match v with
        | .array items => { name, value := v, many := ofItems d base items }
        | _ => { name, value := v }
      | .map =>
        match v with
        | .object members => { name, value := v, named := ofMembers d base members }
        | _ => { name, value := v }
    k :: keywords d base rest

def ofItems (d : Draft) (base : Option Uri) : List Json → List Rules
  | [] => []
  | v :: rest => ofJson d base v :: ofItems d base rest

def ofMembers (d : Draft) (base : Option Uri) : List (String × Json) → List (String × Rules)
  | [] => []
  | (name, v) :: rest => (name, ofJson d base v) :: ofMembers d base rest

end

def ofSubschema (s : Subschema) : Rules :=
  match s.contents with
  | .bool false => .never
  | .object members => Keyword.rules s.draft s.base (keywords s.draft s.base members)
  | _ => .all []

end Rules
end FormTree
