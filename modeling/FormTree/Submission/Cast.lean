import FormTree.Json.Printer
import FormTree.Numeral
import FormTree.Schema
import FormTree.Text.Blank

/-!
Casting of submitted values toward the declared types. Widgets submit texts; a
scalar becomes a number, a boolean, `null` or a text, whichever is declared and
fits first, and a value that fits nothing stays as it is.
-/

namespace FormTree.Submission

/-- The whole number that a float is, if it fits a signed 64-bit integer. -/
def wholeNumber? (x : Binary64) : Option Number :=
  x.toInt?.bind fun n =>
    if Int64.minValue.toInt ≤ n ∧ n ≤ Int64.maxValue.toInt then some (.int n) else none

/-- An integer is declared and a number is not. -/
def isIntegerOnly (types : TypeSet) : Bool := types.contains .integer && !types.contains .number

/-- The number of a text. Digits alone are an integer where that fits 64 bits;
everything else is binary64, kept as an integer where only those are declared
and it is whole. -/
def parseNumber? (integerOnly : Bool) (text : String) : Option Number :=
  (Numeral.read? (Text.trimChars text.toList)).bind fun n =>
    let v := n.wholeValue
    if n.isWhole && decide (Int64.minValue.toInt ≤ v) && decide (v ≤ (Numeral.maxWord : Int)) then
      some (.int v)
    else
      n.nearest?.map fun x =>
        if integerOnly then (wholeNumber? x).getD (.float x) else .float x

/-- A number, or a text that reads as one. -/
def castNumber? (types : TypeSet) (v : Json) : Option Json :=
  if types.isNumeric then
    match v with
    | .number (.float x) =>
      if isIntegerOnly types then some (.number ((wholeNumber? x).getD (.float x))) else some v
    | .number (.int _) => some v
    | .string s => (parseNumber? (isIntegerOnly types) s).map .number
    | _ => none
  else none

/-- A boolean, or zero or one as a text or integer. -/
def castBoolean? (types : TypeSet) (v : Json) : Option Json :=
  if types.contains .boolean then
    match v with
    | .bool _ => some v
    | .string s =>
      if s = "0" then some (.bool false) else if s = "1" then some (.bool true) else none
    | .number (.int n) =>
      if n = 0 then some (.bool false) else if n = 1 then some (.bool true) else none
    | _ => none
  else none

/-- A value without content. Zero has content, `false` has none. -/
def isEmpty : Json → Bool
  | .null => true
  | .bool b => !b
  | .string s => s.isEmpty
  | .array items => items.isEmpty
  | .object members => members.isEmpty
  | .number _ => false

def castNull? (types : TypeSet) (v : Json) : Option Json :=
  if types.contains .null && isEmpty v then some .null else none

/-- The text of a scalar; `null` is the empty text. -/
def castString? (types : TypeSet) (v : Json) : Option Json :=
  if types.contains .string then
    match v with
    | .string _ => some v
    | .null => some (.string "")
    | .bool _ | .number _ => some (.string v.compact)
    | .array _ | .object _ => none
  else none

/-- The first cast that accepts the value, or the value itself. -/
def castScalar (types : TypeSet) (v : Json) : Json :=
  (castNumber? types v <|> castBoolean? types v <|> castNull? types v <|>
    castString? types v).getD v

/-- The node for an entry of an object: that of the declared property, else the
one for other entries, else one that says nothing. -/
def entrySchema (s : Schema) (key : String) : Schema :=
  match s.shape with
  | .object properties _ items => (properties.lookup key <|> items).getD .implicitNull
  | _ => .implicitNull

mutual

/-- Casts a value, part by part where its kind of container is declared. A list
under a node for objects only is cast as entries under its positions. -/
def cast (s : Schema) : Json → Json
  | .array items =>
    if s.types.contains .array then .array (castItems (s.items?.getD .implicitNull) items)
    else if s.types.contains .object then .array (castPositions s 0 items)
    else castScalar s.types (.array items)
  | .object members =>
    if s.types.contains .object then .object (castMembers s members)
    else castScalar s.types (.object members)
  | v => castScalar s.types v

def castItems (s : Schema) : List Json → List Json
  | [] => []
  | v :: rest => cast s v :: castItems s rest

def castPositions (s : Schema) (place : Nat) : List Json → List Json
  | [] => []
  | v :: rest => cast (entrySchema s (toString place)) v :: castPositions s (place + 1) rest

def castMembers (s : Schema) : List (String × Json) → List (String × Json)
  | [] => []
  | (key, v) :: rest => (key, cast (entrySchema s key) v) :: castMembers s rest

end

end FormTree.Submission
