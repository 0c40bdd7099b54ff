import FormTree.Json

/-!
The drafts of JSON Schema that a form can be validated with.
-/

namespace FormTree

inductive Draft where
  | draft4
  | draft6
  | draft7
  | draft2019_09
  | draft2020_12
deriving DecidableEq, Repr, Inhabited

namespace Draft

def name : Draft → String
  | .draft4 => "draft4"
  | .draft6 => "draft6"
  | .draft7 => "draft7"
  | .draft2019_09 => "draft2019_09"
  | .draft2020_12 => "draft2020_12"

def all : List Draft := [.draft4, .draft6, .draft7, .draft2019_09, .draft2020_12]

def ofName? (name : String) : Option Draft := all.find? fun d => d.name == name

theorem ofName?_name (d : Draft) : ofName? d.name = some d := by cases d <;> decide

/-- Whether a draft came after the first one here, which knows fewer keywords
and in which an integer has no binary64 form. -/
def isModern (d : Draft) : Bool := d != .draft4

def hasVocabularies (d : Draft) : Bool := d == .draft2019_09 || d == .draft2020_12

def uri : Draft → String
  | .draft4 => "http://json-schema.org/draft-04/schema"
  | .draft6 => "http://json-schema.org/draft-06/schema"
  | .draft7 => "http://json-schema.org/draft-07/schema"
  | .draft2019_09 => "https://json-schema.org/draft/2019-09/schema"
  | .draft2020_12 => "https://json-schema.org/draft/2020-12/schema"

/-- The draft that a URI names, with or without marks at its end. -/
def ofUri? (text : String) : Option Draft :=
  all.find? fun d => d.uri == (text.dropEndWhile (· == '#')).toString

/-- The draft of a schema inside another one, which it may name itself. A name
that no draft has stands for the last of them. -/
def within (d : Draft) (schema : Json) : Draft :=
  match (schema.member? "$schema").bind Json.string? with
  | some uri => (ofUri? uri).getD .draft2020_12
  | none => d

end Draft
end FormTree
