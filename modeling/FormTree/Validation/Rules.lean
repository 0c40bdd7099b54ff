import FormTree.Json.Pointer
import FormTree.Validation.Assertion
import FormTree.Validation.Uri
import FormTree.Validation.Violation

/-!
The rules that a schema sets for a value, and the violations of them. Rules are
checked in the order in which the schema states them, depth first. What a
reference means is left open here.
-/

namespace FormTree

/-- One rule, over the rules for other values. -/
inductive Constraint (ρ : Type) where
  | assertion (a : Assertion)
  | required (names : List String)
  /-- The declared properties, in the order of the schema. -/
  | properties (declared : List (String × ρ))
  /-- The declared properties, in the order of the document, and no others. -/
  | closedProperties (declared : List (String × ρ))
  /-- The declared properties and all others, in the order of the document. -/
  | allProperties (declared : List (String × ρ)) (other : ρ)
  | noProperties
  | items (each : ρ)
  /-- The first items, one by one. -/
  | tuple (places : List ρ)
  | contains (one : ρ)
  | anyOf (choices : List ρ)
  | oneOf (choices : List ρ)
  | allOf (parts : List ρ)
  | not (schema : Json) (excluded : ρ)
  /-- The rules that a reference under a keyword leads to, read at a URI. -/
  | reference (keyword : String) (base : Option Uri) (target : String)

/-- All rules of a schema. The schema `false` lets no value pass. -/
inductive Rules where
  | never
  | all (constraints : List (Constraint Rules))

instance : Inhabited Rules := ⟨.never⟩

/-- Where a value is checked: the place in the schema and in the document, as
JSON pointers. -/
structure Place where
  schema : String
  value : String

namespace Place

def root : Place := ⟨"", ""⟩

def into (p : Place) (tokens : List String) : Place :=
  { p with schema := p.schema ++ Pointer.join tokens }

def under (p : Place) (token : String) : Place :=
  { p with value := p.value ++ Pointer.join [token] }

def violation (p : Place) (message : String) : Violation := ⟨message, p.schema, p.value, none⟩

end Place

/-- The violations by a value at a place. -/
abbrev Check := Place → Json → List Violation

/-- The checks that references lead to, read at a URI. -/
abbrev References := Option Uri → String → Check

namespace Check

def passes (c : Check) (p : Place) (v : Json) : Bool := (c p v).isEmpty

def never : Check := fun p v => [p.violation ("False schema does not allow " ++ v.compact)]

def assertion (a : Assertion) : Check := fun p v =>
  if a.holds v then [] else [(p.into [a.keyword]).violation (a.message v)]

def required (names : List String) : Check := fun p v =>
  match v with
  | .object members =>
    (names.filter fun name => (members.lookup name).isNone).map fun name =>
      { (p.into ["required"]).violation (Json.quote name ++ " is a required property") with
        missing := some name }
  | _ => []

def property (p : Place) (name : String) (c : Check) (v : Json) : List Violation :=
  c ((p.into ["properties", name]).under name) v

def properties (declared : List (String × Check)) : Check := fun p v =>
  declared.flatMap fun d => ((v.member? d.1).map (property p d.1 d.2)).getD []

def unexpected (names : List String) : String :=
  let quoted := names.map fun name => "'" ++ name ++ "'"
  "Additional properties are not allowed (" ++ ", ".intercalate quoted ++
    (if names.length = 1 then " was" else " were") ++ " unexpected)"

def closedProperties (declared : List (String × Check)) : Check := fun p v =>
  match v with
  | .object members =>
    let known := members.flatMap fun m =>
      ((declared.lookup m.1).map fun c => property p m.1 c m.2).getD []
    let others := (members.filter fun m => (declared.lookup m.1).isNone).map (·.1)
    if others.isEmpty then known
    else known ++ [(p.into ["additionalProperties"]).violation (unexpected others)]
  | _ => []

def allProperties (declared : List (String × Check)) (other : Check) : Check := fun p v =>
  match v with
  | .object members => members.flatMap fun m =>
    match declared.lookup m.1 with
    | some c => property p m.1 c m.2
    | none => other ((p.into ["additionalProperties"]).under m.1) m.2
  | _ => []

/-- The first member of an object is the one that is refused. -/
def noProperties : Check := fun p v =>
  match v with
  | .object (m :: _) => never (p.into ["additionalProperties"]) m.2
  | _ => []

def items (each : Check) : Check := fun p v =>
  match v with
  | .array items => items.zipIdx.flatMap fun i =>
    each ((p.into ["items"]).under (toString i.2)) i.1
  | _ => []

def tuple (places : List Check) : Check := fun p v =>
  match v with
  | .array items => (items.zip places).zipIdx.flatMap fun i =>
    i.1.2 ((p.into ["items", toString i.2]).under (toString i.2)) i.1.1
  | _ => []

def contains (c : Check) : Check := fun p v =>
  match v with
  | .array items =>
    let p := p.into ["contains"]
    if items.any (c.passes p) then []
    else [p.violation ("None of " ++ v.compact ++ " are valid under the given schema")]
  | _ => []

def passed (choices : List Check) (p : Place) (v : Json) : Nat :=
  choices.countP fun c => c.passes p v

def noChoice (keyword : String) (v : Json) : String :=
  v.compact ++ " is not valid under any of the schemas listed in the '" ++ keyword ++ "' keyword"

def anyOf (choices : List Check) : Check := fun p v =>
  if passed choices p v = 0 then [(p.into ["anyOf"]).violation (noChoice "anyOf" v)] else []

def oneOf (choices : List Check) : Check := fun p v =>
  let p := p.into ["oneOf"]
  match passed choices p v with
  | 0 => [p.violation (noChoice "oneOf" v)]
  | 1 => []
  | _ =>
    [p.violation
      (v.compact ++ " is valid under more than one of the schemas listed in the 'oneOf' keyword")]

def allOf (parts : List Check) : Check := fun p v =>
  parts.zipIdx.flatMap fun c => c.1 (p.into ["allOf", toString c.2]) v

def not (schema : Json) (excluded : Check) : Check := fun p v =>
  let p := p.into ["not"]
  if excluded.passes p v then
    [p.violation (schema.compact ++ " is not allowed for " ++ v.compact)]
  else []

/-- A check that stands elsewhere in the schema. -/
def elsewhere (keyword : String) (c : Check) : Check := fun p v => c (p.into [keyword]) v

end Check

namespace Rules

mutual

def check (refs : References) : Rules → Check
  | .never => Check.never
  | .all constraints => fun p v => (constraintChecks refs constraints).flatMap fun c => c p v

def constraintChecks (refs : References) : List (Constraint Rules) → List Check
  | [] => []
  | c :: rest => constraintCheck refs c :: constraintChecks refs rest

def constraintCheck (refs : References) : Constraint Rules → Check
  | .assertion a => Check.assertion a
  | .required names => Check.required names
  | .properties declared => Check.properties (declaredChecks refs declared)
  | .closedProperties declared => Check.closedProperties (declaredChecks refs declared)
  | .allProperties declared other =>
    Check.allProperties (declaredChecks refs declared) (check refs other)
  | .noProperties => Check.noProperties
  | .items each => Check.items (check refs each)
  | .tuple places => Check.tuple (listChecks refs places)
  | .contains one => Check.contains (check refs one)
  | .anyOf choices => Check.anyOf (listChecks refs choices)
  | .oneOf choices => Check.oneOf (listChecks refs choices)
  | .allOf parts => Check.allOf (listChecks refs parts)
  | .not schema excluded => Check.not schema (check refs excluded)
  | .reference keyword base target => Check.elsewhere keyword (refs base target)

def listChecks (refs : References) : List Rules → List Check
  | [] => []
  | r :: rest => check refs r :: listChecks refs rest

def declaredChecks (refs : References) : List (String × Rules) → List (String × Check)
  | [] => []
  | (name, r) :: rest => (name, check refs r) :: declaredChecks refs rest

end

end Rules
end FormTree
