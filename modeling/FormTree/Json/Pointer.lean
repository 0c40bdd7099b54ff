import FormTree.Json

/-!
JSON pointers: reference tokens with `~` and `/` escaped, joined by slashes.
Looking a token list up steps into members by key and into items by decimal
index without leading zeros.
-/

namespace FormTree.Pointer

def escapeChars (cs : List Char) : List Char :=
  cs.flatMap fun c => if c = '~' then ['~', '0'] else if c = '/' then ['~', '1'] else [c]

/-- Reads `~1` and `~0` back; a tilde before anything else stands for itself. -/
def unescapeChars : List Char → List Char
  | '~' :: '1' :: rest => '/' :: unescapeChars rest
  | '~' :: '0' :: rest => '~' :: unescapeChars rest
  | c :: rest => c :: unescapeChars rest
  | [] => []

def escape (token : String) : String := String.ofList (escapeChars token.toList)

def unescape (text : String) : String := String.ofList (unescapeChars text.toList)

def join (tokens : List String) : String := String.join (tokens.map fun t => "/" ++ escape t)

def index? (token : String) : Option Nat :=
  match token.toList with
  | ['0'] => some 0
  | c :: rest =>
    if c ≠ '0' ∧ (c :: rest).all Char.isDigit then some (Nat.ofDigitChars 10 (c :: rest) 0)
    else none
  | [] => none

/-- The pieces of text between slashes; `piece` holds the characters since the
last slash in reverse. -/
def pieces (piece : List Char) : List Char → List (List Char)
  | [] => [piece.reverse]
  | '/' :: rest => piece.reverse :: pieces [] rest
  | c :: rest => pieces (c :: piece) rest

/-- The reference tokens of a pointer; nothing stands before its first slash. -/
def tokens? (pointer : String) : Option (List String) :=
  match pieces [] pointer.toList with
  | [] :: rest => some (rest.map fun piece => String.ofList (unescapeChars piece))
  | _ => none

def resolve? : List String → Json → Option Json
  | [], v => some v
  | t :: rest, .object members => (members.lookup t).bind (resolve? rest)
  | t :: rest, .array items => (index? t).bind fun i => items[i]?.bind (resolve? rest)
  | _ :: _, _ => none

def lookup? (pointer : String) (v : Json) : Option Json :=
  (tokens? pointer).bind (resolve? · v)

end FormTree.Pointer
