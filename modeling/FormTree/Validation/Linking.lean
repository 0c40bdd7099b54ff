import FormTree.Json.Printer
import FormTree.Validation.Subschema

/-!
Whether a schema can be put to use: everything it refers to is at hand, and
wherever values are held to it, its patterns can be matched.
-/

namespace FormTree

namespace Subschema

def itemIndex? (token : String) : Option Nat :=
  let digits := if token.front? = some '+' then (token.drop 1).toString else token
  if digits.all Char.isDigit then digits.toNat? else none

def step? (s : Subschema) (token : String) : Option Subschema :=
  let value :=
    match s.contents with
    | .array items => (itemIndex? token).bind fun i => items[i]?
    | .object members => members.lookup (Pointer.unescape token)
    | _ => none
  value.map fun v =>
    let d := s.draft.within v
    ⟨d, rebase d s.base v, v, true⟩

def descend? (s : Subschema) (pointer : String) : Option Subschema := do
  let text ← String.fromUTF8? ⟨(Uri.bytes (pointer.drop 1).toString.toList).toArray⟩
  (text.splitOn "/").foldlM step? s

/-- The schema of a draft for schemas, under its URI. It has no part that could
not be used. -/
def ofDraft? (u : Uri) : Option Subschema :=
  (Draft.all.find? fun d => Uri.reference? d.uri == some u).map fun d =>
    ⟨d, some u, .bool true, true⟩

/-- The schema that a reference at a URI leads to, among some schemas or the
drafts. -/
def follow? (all : List Subschema) (base : Option Uri) (reference : String) :
    Option Subschema := do
  let uri ← (Uri.reference? reference).bind (← base).resolve?
  let home := { uri with fragment := none }
  let fragment := String.ofList (uri.fragment.getD [])
  let whole ← all.find? (·.base == some home) <|> ofDraft? home
  let target ←
    if fragment.front? = some '/' then whole.descend? fragment
    else if fragment.isEmpty then some whole
    else all.find? fun t => t.base == some home && (placeNames t.draft t.contents).contains fragment
  return { target with used := true }

def draftUris : List String := ["https://json-schema.org/draft/", "http://json-schema.org/draft-"]

/-- Whether a reference stays in its schema, goes to a draft, or goes to one of
some schemas. -/
def isAtHand (all : List Subschema) (base : Uri) (reference : String) : Bool :=
  reference.front? = some '#' || draftUris.any (fun start => reference.startsWith start) ||
    ((Uri.reference? reference).bind base.resolve?).any fun home =>
      all.any (·.base == some { home with fragment := none })

/-- Whether a schema and all that it names are at hand. From a URN no reference
is followed beforehand. -/
def isPlaced (all : List Subschema) (s : Subschema) : Bool :=
  s.base.any fun base =>
    base.scheme == some "urn".toList ||
      ["$ref", "$schema"].all fun key => (text? s.contents key).all (isAtHand all base)

/-- The references that a value held to the schema is held to. -/
def references (s : Subschema) : List String :=
  s.members.filterMap fun (key, v) =>
    if key = "$ref" ∨ key = "$dynamicRef" ∧ s.draft = .draft2020_12 then v.string? else none

/-- The media type whose encoding is looked at. -/
def knownMediaType : String := "application/json"

/-- Whether the keywords about media types have values that can be read. Only
drafts 6 and 7 look at them. -/
def contentReads (s : Subschema) : Bool :=
  let encoding := (s.members.lookup "contentEncoding").getD (.string "")
  match s.members.lookup "contentMediaType" with
  | none => encoding.isString
  | some (.string type) => type != knownMediaType || encoding.isString
  | some _ => false

def keywordReads (key : String) (v : Json) : Bool :=
  match key with
  | "$ref" => v.isString
  | "pattern" => v.string?.all Pattern.isUsable
  | "patternProperties" => (v.object?.getD []).all fun m => Pattern.isUsable m.1
  | _ => true

/-- Whether values can be held to a schema as far as it refers to no other. -/
def reads (s : Subschema) : Bool :=
  (s.contents.isObject || s.contents.bool?.isSome) &&
    (s.members.all fun m => keywordReads m.1 m.2) &&
    (s.draft != .draft6 && s.draft != .draft7 || s.contentReads)

/-- Whether values can be held to schemas and to all that those refer to. Each
round takes the schemas that no round before has met. -/
def areUsable (all : List Subschema) : Nat → List Subschema → List Subschema → Bool
  | 0, _, _ => false
  | rounds + 1, met, schemas =>
    let used := (schemas.flatMap Subschema.all).filter Subschema.used
    let targets := used.flatMap fun s => s.references.map (follow? all s.base)
    let fresh := (targets.filterMap id).eraseDups.filter fun t => !met.contains t
    used.all reads && targets.all Option.isSome &&
      (fresh.isEmpty || areUsable all rounds (fresh ++ met) fresh)

end Subschema

namespace Draft

/-- Whether values can be held to a schema. A schema has fewer references than
characters, which bounds the rounds. -/
def canUse (d : Draft) (schema : Json) : Bool :=
  let root := Subschema.root d schema
  root.all.all (Subschema.isPlaced root.all) &&
    Subschema.areUsable root.all (schema.compact.length + 1) [root] [root]

end Draft
end FormTree
