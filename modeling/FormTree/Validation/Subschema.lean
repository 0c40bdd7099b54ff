import FormTree.Validation.Grammar

/-!
The schemas inside a schema, each with its draft and with the URI that the
references in it are relative to.
-/

namespace FormTree

structure Subschema where
  draft : Draft
  /-- The URI that references are relative to, if all names on the way to the
  schema can be read. -/
  base : Option Uri
  contents : Json
  /-- Values are held to the schema, or to a part of it. -/
  used : Bool
deriving DecidableEq

namespace Subschema

def text? (v : Json) (key : String) : Option String := (v.member? key).bind Json.string?

/-- The keyword that names a schema. -/
def nameKey (d : Draft) : String := if d.isModern then "$id" else "id"

/-- The name of a schema as a whole, without marks at its end. Before the
vocabularies a name that begins with a mark is one of a place. -/
def name? (d : Draft) (v : Json) : Option String :=
  if !d.hasVocabularies && (v.member? "$ref").isSome then none
  else
    ((text? v (nameKey d)).filter fun name => d.hasVocabularies || name.front? ≠ some '#').map
      fun name => (name.dropEndWhile (· == '#')).toString

/-- The names of places that a schema gives itself. -/
def placeNames (d : Draft) (v : Json) : List String :=
  match d with
  | .draft2020_12 => (text? v "$anchor").toList ++ (text? v "$dynamicAnchor").toList
  | .draft2019_09 => (text? v "$anchor").toList
  | _ =>
    ((text? v (nameKey d)).filter fun name => name.front? = some '#').toList.map fun name =>
      (name.drop 1).toString

/-- The URI for references in a schema, from the one around it. -/
def rebase (d : Draft) (base : Option Uri) (v : Json) : Option Uri :=
  match name? d v with
  | some name => base.bind fun base => (Uri.reference? name).bind base.resolve?
  | none => base

/-- Whether a value is held to the schemas under a keyword, by the members of
the schema. -/
def counts (d : Draft) (members : List (String × Json)) (key : String) : Bool :=
  let has (key : String) : Bool := (members.lookup key).isSome
  if has "$ref" && !d.hasVocabularies then false
  else
    match key with
    | "definitions" | "$defs" | "contentSchema" => false
    | "if" => has "then" || has "else"
    | "then" | "else" => has "if"
    | "additionalItems" => ((members.lookup "items").bind Json.array?).isSome
    | _ => true

mutual

/-- The schemas in a value that is one. -/
def ofJson (outer : Draft) (base : Option Uri) (used : Bool) : Json → List Subschema
  | .object members =>
    let d := outer.within (.object members)
    let base := rebase d base (.object members)
    ⟨d, base, .object members, used⟩ :: ofMembers d base used members members
  | _ => []

/-- The schemas under keywords, among all members of their schema. -/
def ofMembers (d : Draft) (base : Option Uri) (used : Bool) (all : List (String × Json)) :
    List (String × Json) → List Subschema
  | [] => []
  | (key, v) :: rest =>
    let used' := used && counts d all key
    (match (Grammar.forms d).lookup key with
    | none | some (.value _) => []
    | some .schema | some .schemaOrFlag => ofJson d base used' v
    | some .schemaOrList | some .schemaList =>
      match v with
      | .array items => ofItems d base used' items
      | v => ofJson d base used' v
    | some (.schemaMap _) | some .dependencies =>
      match v with
      | .object members => ofMap d base used' members
      | _ => []) ++ ofMembers d base used all rest

def ofItems (d : Draft) (base : Option Uri) (used : Bool) : List Json → List Subschema
  | [] => []
  | v :: rest => ofJson d base used v ++ ofItems d base used rest

def ofMap (d : Draft) (base : Option Uri) (used : Bool) :
    List (String × Json) → List Subschema
  | [] => []
  | (_, v) :: rest => ofJson d base used v ++ ofMap d base used rest

end

/-- A schema of a draft, whatever draft it names itself. Its name is read at the
URI that it gives, so that this must be one of a whole. -/
def root (d : Draft) (schema : Json) : Subschema :=
  ⟨d, rebase d (rebase d (some .unnamed) schema) schema, schema, true⟩

def all (s : Subschema) : List Subschema :=
  match s.contents with
  | .object members => s :: ofMembers s.draft s.base s.used members members
  | _ => [s]

/-- The members that count: before the vocabularies a reference stands for the
whole schema. -/
def members (s : Subschema) : List (String × Json) :=
  match s.contents with
  | .object members =>
    match members.lookup "$ref" with
    | some v => if s.draft.hasVocabularies then members else [("$ref", v)]
    | none => members
  | _ => []

end Subschema
end FormTree
