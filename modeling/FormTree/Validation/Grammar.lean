import FormTree.Json.Equivalence
import FormTree.Schema
import FormTree.Validation.Draft
import FormTree.Validation.Pattern
import FormTree.Validation.Uri

/-!
The grammar of schemas: for each draft what may stand under a keyword. A
keyword that a draft does not know may have any value.
-/

namespace FormTree.Grammar

/-- The form of a value that holds no schema. -/
inductive ValueForm where
  | text
  | pattern
  | uri
  | reference
  /-- The name of a whole schema, in which a mark can only stand at the end. -/
  | schemaName
  /-- The name of a place in a schema. -/
  | placeName
  | flag
  | number
  | positive
  | count
  | list
  | names
  | typeNames
  | namesMap
  | flagMap

inductive Form where
  | value (form : ValueForm)
  | schema
  | schemaOrFlag
  | schemaOrList
  | schemaList
  /-- Schemas under names, which may have to be patterns. -/
  | schemaMap (patterns : Bool)
  | dependencies

/-- Distinct strings. The first draft asks for one at least. -/
def isNames (d : Draft) (v : Json) : Bool :=
  match v with
  | .array names =>
    names.all Json.isString && Json.allDistinct names && (d.isModern || !names.isEmpty)
  | _ => false

def isTypeName (v : Json) : Bool := (v.string?.bind JsonType.ofName?).isSome

/-- Whether a text is a letter with letters, digits, dashes, low lines and dots
after it. In the last draft a low line may come first, in the one before it
colons may follow. -/
def isPlaceName (d : Draft) (text : List Char) : Bool :=
  let isLast := d == .draft2020_12
  match text with
  | [] => false
  | c :: rest =>
    (c.isAlpha || isLast && c == '_') && rest.all fun c =>
      c.isAlphanum || c == '-' || c == '_' || c == '.' || !isLast && c == ':'

/-- Whether a text has no `#` but at its end. -/
def isSchemaName (text : List Char) : Bool := (text.dropWhile (· ≠ '#')).length ≤ 1

/-- Whether a value has a form. A count may be written as a binary64 number
where an integer may. -/
def ValueForm.admits (d : Draft) (v : Json) : ValueForm → Bool
  | .text => v.isString
  | .pattern => v.string?.any Pattern.isExpression
  | .uri => v.string?.any Uri.isUri
  | .reference => v.string?.any Uri.isReference
  | .schemaName => v.string?.any fun name => isSchemaName name.toList
  | .placeName => v.string?.any fun name => isPlaceName d name.toList
  | .flag => v.bool?.isSome
  | .number =>
    match v with
    | .number _ => true
    | _ => false
  | .positive =>
    match v with
    | .number n => Number.lessThan (.int 0) n
    | _ => false
  | .count =>
    match v with
    | .number (.int n) => 0 ≤ n
    | .number (.float x) =>
      d.isModern && x.toInt?.isSome && !Number.lessThan (.float x) (.int 0)
    | _ => false
  | .list => v.array?.isSome
  | .names => isNames d v
  | .typeNames =>
    match v with
    | .array types => !types.isEmpty && types.all isTypeName && Json.allDistinct types
    | v => isTypeName v
  | .namesMap => v.object?.any fun members => members.all fun m => isNames d m.2
  | .flagMap => v.object?.any fun members => members.all fun m => m.2.bool?.isSome

/-- Keywords that every draft reads in the same form. -/
def sharedForms : List (String × Form) :=
  [("title", .value .text), ("description", .value .text), ("multipleOf", .value .positive),
    ("maximum", .value .number), ("minimum", .value .number), ("maxLength", .value .count),
    ("minLength", .value .count), ("maxItems", .value .count), ("minItems", .value .count),
    ("uniqueItems", .value .flag), ("maxProperties", .value .count),
    ("minProperties", .value .count), ("required", .value .names), ("properties", .schemaMap false),
    ("definitions", .schemaMap false), ("dependencies", .dependencies), ("enum", .value .list),
    ("type", .value .typeNames), ("format", .value .text), ("allOf", .schemaList),
    ("anyOf", .schemaList), ("oneOf", .schemaList), ("not", .schema)]

/-- Keywords of the first draft alone, or read by it alone in this form. -/
def firstForms : List (String × Form) :=
  [("id", .value .text), ("$schema", .value .uri), ("pattern", .value .pattern),
    ("patternProperties", .schemaMap false), ("exclusiveMaximum", .value .flag),
    ("exclusiveMinimum", .value .flag), ("additionalItems", .schemaOrFlag),
    ("items", .schemaOrList), ("additionalProperties", .schemaOrFlag)]

/-- Keywords that all later drafts read in the same form. -/
def modernForms : List (String × Form) :=
  [("examples", .value .list), ("exclusiveMaximum", .value .number),
    ("exclusiveMinimum", .value .number), ("contains", .schema), ("additionalProperties", .schema),
    ("propertyNames", .schema)]

/-- Keywords whose texts drafts 6 and 7 hold to a format. -/
def formattedForms : List (String × Form) :=
  [("$id", .value .reference), ("$schema", .value .uri), ("$ref", .value .reference),
    ("pattern", .value .pattern), ("patternProperties", .schemaMap true)]

/-- Keywords that came with draft 7. -/
def conditionalForms : List (String × Form) :=
  [("$comment", .value .text), ("readOnly", .value .flag), ("writeOnly", .value .flag),
    ("contentMediaType", .value .text), ("contentEncoding", .value .text), ("if", .schema),
    ("then", .schema), ("else", .schema)]

/-- Keywords that came with the vocabularies, or have been read in this form
since. -/
def vocabularyForms : List (String × Form) :=
  [("$id", .value .schemaName), ("$schema", .value .text), ("$ref", .value .text),
    ("pattern", .value .text), ("patternProperties", .schemaMap false),
    ("$anchor", .value .placeName), ("$vocabulary", .value .flagMap), ("$defs", .schemaMap false),
    ("$recursiveRef", .value .text), ("unevaluatedItems", .schema),
    ("unevaluatedProperties", .schema), ("dependentSchemas", .schemaMap false),
    ("dependentRequired", .value .namesMap), ("maxContains", .value .count),
    ("minContains", .value .count), ("deprecated", .value .flag), ("contentSchema", .schema)]

/-- Lists of items under the keywords of the drafts before the last. -/
def listedItemsForms : List (String × Form) :=
  [("items", .schemaOrList), ("additionalItems", .schema)]

def forms : Draft → List (String × Form)
  | .draft4 => sharedForms ++ firstForms
  | .draft6 => sharedForms ++ modernForms ++ formattedForms ++ listedItemsForms
  | .draft7 => sharedForms ++ modernForms ++ formattedForms ++ conditionalForms ++ listedItemsForms
  | .draft2019_09 =>
    sharedForms ++ modernForms ++ conditionalForms ++ vocabularyForms ++ listedItemsForms ++
      [("$recursiveAnchor", .value .flag)]
  | .draft2020_12 =>
    sharedForms ++ modernForms ++ conditionalForms ++ vocabularyForms ++
      [("items", .schema), ("prefixItems", .schemaList), ("$dynamicRef", .value .text),
        ("$dynamicAnchor", .value .placeName), ("$recursiveAnchor", .value .placeName)]

/-- In the first draft the flags for exclusive limits need the limits. -/
def limitsPresent (d : Draft) (members : List (String × Json)) : Bool :=
  let needs (flag limit : String) :=
    (members.lookup flag).isNone || (members.lookup limit).isSome
  d.isModern || (needs "exclusiveMaximum" "maximum" && needs "exclusiveMinimum" "minimum")

mutual

/-- Whether a value is a schema of the draft, at every depth. A schema is an
object or, in all drafts but the first, a flag. -/
def isSchema (d : Draft) : Json → Bool
  | .object members => keywordsHold d members && limitsPresent d members
  | .bool _ => d.isModern
  | _ => false

def keywordsHold (d : Draft) : List (String × Json) → Bool
  | [] => true
  | (key, v) :: rest =>
    (match (forms d).lookup key with
    | none => true
    | some (.value form) => form.admits d v
    | some .schema => isSchema d v
    | some .schemaOrFlag => v.bool?.isSome || isSchema d v
    | some .schemaOrList =>
      match v with
      | .array items => !items.isEmpty && areSchemas d items
      | v => isSchema d v
    | some .schemaList =>
      match v with
      | .array items => !items.isEmpty && areSchemas d items
      | _ => false
    | some (.schemaMap patterns) =>
      match v with
      | .object members =>
        (!patterns || members.all fun m => Pattern.isExpression m.1) && mapHolds d members
      | _ => false
    | some .dependencies =>
      match v with
      | .object members => dependenciesHold d members
      | _ => false) && keywordsHold d rest

def areSchemas (d : Draft) : List Json → Bool
  | [] => true
  | v :: rest => isSchema d v && areSchemas d rest

def mapHolds (d : Draft) : List (String × Json) → Bool
  | [] => true
  | (_, v) :: rest => isSchema d v && mapHolds d rest

/-- Under a name stands a schema or a list of names. -/
def dependenciesHold (d : Draft) : List (String × Json) → Bool
  | [] => true
  | (_, v) :: rest => (isNames d v || isSchema d v) && dependenciesHold d rest

end

end FormTree.Grammar
