import FormTree.Json

/-!
The forms in which records and choices are stored. A record is an object, in
which unknown members are ignored, or the list of its fields in order, which may
leave out the last ones. A choice among names is the name, or an object with the
name as its only key and nothing under it.
-/

namespace FormTree

inductive Format where
  | json
  | toml
deriving DecidableEq, Repr

namespace Format

/-- The fields of a record under the given names, `none` for one left out. Only
in TOML may items follow after the last field. -/
def record? (f : Format) (names : List String) : Json → Option (List (Option Json))
  | .object members => some (names.map fun name => members.lookup name)
  | .array items =>
    if items.length ≤ names.length ∨ f = .toml then
      some ((items.take names.length).map some ++
        List.replicate (names.length - items.length) none)
    else none
  | _ => none

/-- Whether a value stands for none. TOML has no `null`. -/
def isNothing : Format → Json → Bool
  | .json, v => v = .null
  | .toml, v => v = .object [] || v = .array []

def choice? (f : Format) : Json → Option String
  | .string name => some name
  | .object [(name, v)] => if f.isNothing v then some name else none
  | _ => none

end Format

namespace Json

def record? (v : Json) (names : List String) : Option (List (Option Json)) :=
  Format.json.record? names v

def choice? (v : Json) : Option String := Format.json.choice? v

/-- A field that may be left out. -/
def optional {α : Type} (decode : Json → Option α) (missing : α) : Option Json → Option α
  | none => some missing
  | some v => decode v

/-- A field that may be left out or `null`. -/
def nullable {α : Type} (decode : Json → Option α) : Option Json → Option (Option α)
  | none | some .null => some none
  | some v => (decode v).map some

def list? {α : Type} (decode : Json → Option α) (v : Json) : Option (List α) :=
  v.array?.bind fun items => items.mapM decode

end Json
end FormTree
