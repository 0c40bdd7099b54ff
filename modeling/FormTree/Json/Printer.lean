import FormTree.Json
import FormTree.Binary64.Shortest

/-!
The two texts of a JSON value: the compact one, without white space, and the
indented one, with a member or item on each line.
-/

namespace FormTree

def Number.toText : Number → String
  | .int n => toString n
  | .float x => x.toText

namespace Json

def hexDigit (n : Nat) : Char := Nat.digitChar n

/-- The escape of a character inside a string; only the quote, the backslash
and the control characters below space have one. -/
def escapeChar (c : Char) : List Char :=
  if c = '"' then ['\\', '"']
  else if c = '\\' then ['\\', '\\']
  else if c = '\x08' then ['\\', 'b']
  else if c = '\x0c' then ['\\', 'f']
  else if c = '\n' then ['\\', 'n']
  else if c = '\r' then ['\\', 'r']
  else if c = '\t' then ['\\', 't']
  else if c.toNat < 0x20 then
    ['\\', 'u', '0', '0', hexDigit (c.toNat / 16), hexDigit (c.toNat % 16)]
  else [c]

def quote (s : String) : String :=
  String.ofList ('"' :: s.toList.flatMap escapeChar ++ ['"'])

mutual

def compact : Json → String
  | .null => "null"
  | .bool true => "true"
  | .bool false => "false"
  | .number n => n.toText
  | .string s => quote s
  | .array items => "[" ++ ",".intercalate (compactItems items) ++ "]"
  | .object members => "\x7b" ++ ",".intercalate (compactMembers members) ++ "\x7d"

def compactItems : List Json → List String
  | [] => []
  | v :: rest => compact v :: compactItems rest

def compactMembers : List (String × Json) → List String
  | [] => []
  | (k, v) :: rest => (quote k ++ ":" ++ compact v) :: compactMembers rest

end

/-- A new line with two spaces for each level. -/
def lineBreak (level : Nat) : String := "\n" ++ String.ofList (List.replicate (2 * level) ' ')

mutual

/-- The text with a line for each item or member; an empty container stays on
its line. -/
def indented (level : Nat) : Json → String
  | .array [] => "[]"
  | .array (v :: rest) =>
    "[" ++ ",".intercalate (indentedItems (level + 1) (v :: rest)) ++ lineBreak level ++ "]"
  | .object [] => "\x7b\x7d"
  | .object (m :: rest) =>
    "\x7b" ++ ",".intercalate (indentedMembers (level + 1) (m :: rest)) ++ lineBreak level ++ "\x7d"
  | v => compact v

def indentedItems (level : Nat) : List Json → List String
  | [] => []
  | v :: rest => (lineBreak level ++ indented level v) :: indentedItems level rest

def indentedMembers (level : Nat) : List (String × Json) → List String
  | [] => []
  | (k, v) :: rest =>
    (lineBreak level ++ quote k ++ ": " ++ indented level v) :: indentedMembers level rest

end

def pretty (v : Json) : String := indented 0 v

/-- A string itself, and the compact text of any other value. -/
def displayText : Json → String
  | .string s => s
  | v => v.compact

end Json
end FormTree
