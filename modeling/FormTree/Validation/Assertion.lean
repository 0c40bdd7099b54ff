import FormTree.Json.Equivalence
import FormTree.Json.Printer
import FormTree.Schema

/-!
Assertions of a schema that look at one value and at no other schema, with the
message for a value that fails one.
-/

namespace FormTree

inductive Assertion where
  /-- One of the types. Where `wholeFloats` holds, an integer may be written as
  a binary64 number. -/
  | types (allowed : List JsonType) (wholeFloats : Bool)
  | enum (values : List Json)
  | const (value : Json)
  | minLength (limit : Nat)
  | maxLength (limit : Nat)
  | minItems (limit : Nat)
  | maxItems (limit : Nat)
  | minProperties (limit : Nat)
  | maxProperties (limit : Nat)
  | minimum (limit : Number)
  | maximum (limit : Number)
  | exclusiveMinimum (limit : Number)
  | exclusiveMaximum (limit : Number)
  | multipleOf (divisor : Number)
  | uniqueItems

def JsonType.admits (wholeFloats : Bool) : JsonType → Json → Bool
  | .null, .null | .boolean, .bool _ | .number, .number _ | .string, .string _ => true
  | .array, .array _ | .object, .object _ | .integer, .number (.int _) => true
  | .integer, .number (.float x) => wholeFloats && x.toInt?.isSome
  | _, _ => false

namespace Assertion

def keyword : Assertion → String
  | .types _ _ => "type"
  | .enum _ => "enum"
  | .const _ => "const"
  | .minLength _ => "minLength"
  | .maxLength _ => "maxLength"
  | .minItems _ => "minItems"
  | .maxItems _ => "maxItems"
  | .minProperties _ => "minProperties"
  | .maxProperties _ => "maxProperties"
  | .minimum _ => "minimum"
  | .maximum _ => "maximum"
  | .exclusiveMinimum _ => "exclusiveMinimum"
  | .exclusiveMaximum _ => "exclusiveMaximum"
  | .multipleOf _ => "multipleOf"
  | .uniqueItems => "uniqueItems"

/-- Whether a value fulfils the assertion. An assertion about one type of value
is fulfilled by every value of another. -/
def holds : Assertion → Json → Bool
  | .types allowed wholeFloats, v => allowed.any fun t => t.admits wholeFloats v
  | .enum values, v => values.any v.equiv
  | .const value, v => Json.isConstant value v
  | .minLength limit, .string s => limit ≤ s.length
  | .maxLength limit, .string s => s.length ≤ limit
  | .minItems limit, .array items => limit ≤ items.length
  | .maxItems limit, .array items => items.length ≤ limit
  | .minProperties limit, .object members => limit ≤ members.length
  | .maxProperties limit, .object members => members.length ≤ limit
  | .minimum limit, .number n => !n.lessThan limit
  | .maximum limit, .number n => !limit.lessThan n
  | .exclusiveMinimum limit, .number n => limit.lessThan n
  | .exclusiveMaximum limit, .number n => n.lessThan limit
  | .multipleOf divisor, .number n => n.isMultipleOf divisor
  | .uniqueItems, .array items => Json.allDistinct items
  | _, _ => true

def counted (n : Nat) (one many : String) : String :=
  toString n ++ " " ++ if n = 1 then one else many

def listedTypes : List JsonType :=
  [.array, .boolean, .integer, .null, .number, .object, .string]

/-- The types in single or multiple form. -/
def typesText (allowed : List JsonType) : String :=
  match (listedTypes.filter allowed.contains).map fun t => Json.quote t.name with
  | [one] => "type " ++ one
  | many => "types " ++ ", ".intercalate many

def complaint : Assertion → String
  | .types allowed _ => "is not of " ++ typesText allowed
  | .enum values => "is not one of " ++ (Json.array values).compact
  | .const _ => "was expected"
  | .minLength limit => "is shorter than " ++ counted limit "character" "characters"
  | .maxLength limit => "is longer than " ++ counted limit "character" "characters"
  | .minItems limit => "has less than " ++ counted limit "item" "items"
  | .maxItems limit => "has more than " ++ counted limit "item" "items"
  | .minProperties limit => "has less than " ++ counted limit "property" "properties"
  | .maxProperties limit => "has more than " ++ counted limit "property" "properties"
  | .minimum limit => "is less than the minimum of " ++ limit.toText
  | .maximum limit => "is greater than the maximum of " ++ limit.toText
  | .exclusiveMinimum limit => "is less than or equal to the minimum of " ++ limit.toText
  | .exclusiveMaximum limit => "is greater than or equal to the maximum of " ++ limit.toText
  | .multipleOf divisor => "is not a multiple of " ++ divisor.toBinary64.toPlainText
  | .uniqueItems => "has non-unique elements"

/-- The message for a value that fails the assertion. It names the value, or
what was expected in its place. -/
def message (a : Assertion) (v : Json) : String :=
  let subject :=
    match a with
    | .const value => value
    | _ => v
  subject.compact ++ " " ++ a.complaint

end Assertion
end FormTree
