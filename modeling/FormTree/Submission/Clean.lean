import FormTree.Path

/-!
Cleaning of a raw submission. Items of a repeated field arrive in a mapping
under their indices, each in a wrapper beside its remove control, next to the
label of the add control. Cleaning turns such a mapping into a sequence without
wrappers and drops what was not filled in. Anything can be cleaned.
-/

namespace FormTree.Submission

def isIndexKey (key : String) : Bool := !key.toList.isEmpty && key.toList.all Char.isDigit

def isAddLabel (entry : String × Json) : Bool := entry.1 == Control.addMore.key && entry.2.isString

/-- The entries without the label of the add control are there, and all stand
under indices. -/
def isIndexed (members : List (String × Json)) : Bool :=
  let entries := members.filter fun m => !isAddLabel m
  !entries.isEmpty && entries.all fun m => isIndexKey m.1

/-- An object of just a wrapped item and the label of its remove control. -/
def isWrapper : Json → Bool
  | .object members =>
    members.length == 2 && (members.lookup Segment.wrapperKey).isSome &&
      ((members.lookup Control.remove.key).map Json.isString).getD false
  | _ => false

/-- A value that says that nothing was filled in. -/
def isBlank : Json → Bool
  | .null => true
  | .string s => s.isEmpty
  | .array items => items.isEmpty
  | .object members => members.isEmpty
  | .bool _ | .number _ => false

def dropBlankTail (items : List Json) : List Json := (items.reverse.dropWhile isBlank).reverse

mutual

/-- Cleans a value, its parts first. -/
def clean : Json → Json
  | .object members =>
    if isIndexed members then
      let wrapped := members.all fun m => isAddLabel m || isWrapper m.2
      .array (dropBlankTail (cleanValues wrapped members))
    else .object (cleanEntries members)
  | .array items => .array (dropBlankTail (cleanItems (items.all isWrapper) items))
  | v => v

def cleanItems (wrapped : Bool) : List Json → List Json
  | [] => []
  | v :: rest => (if wrapped then cleanWrapped v else clean v) :: cleanItems wrapped rest

def cleanValues (wrapped : Bool) : List (String × Json) → List Json
  | [] => []
  | (key, v) :: rest =>
    if isAddLabel (key, v) then cleanValues wrapped rest
    else (if wrapped then cleanWrapped v else clean v) :: cleanValues wrapped rest

def cleanWrapped : Json → Json
  | .object members => cleanHeld members
  | v => v

def cleanHeld : List (String × Json) → Json
  | [] => .null
  | (key, v) :: rest => if key = Segment.wrapperKey then clean v else cleanHeld rest

/-- Cleans the entries of a mapping and drops those that are blank then. -/
def cleanEntries : List (String × Json) → List (String × Json)
  | [] => []
  | (key, v) :: rest =>
    if isAddLabel (key, v) then cleanEntries rest
    else
      let cleaned := clean v
      if isBlank cleaned then cleanEntries rest else (key, cleaned) :: cleanEntries rest

end

end FormTree.Submission
