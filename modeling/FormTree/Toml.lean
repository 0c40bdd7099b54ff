import FormTree.Toml.Scalar
import FormTree.Toml.Table
import FormTree.Toml.Token

/-!
Reading of TOML text into JSON values. Tokens are taken one by one; the reader
keeps the tables read so far, the header in force, and the arrays and inline
tables that are still open.
-/

namespace FormTree.Toml

/-- The number of arrays and inline tables that may be open at once, and of the
parts of a key. -/
def maxNesting : Nat := 80

/-- An array or inline table whose end has not been read. An inline table holds
the key whose value is to come. -/
inductive Frame where
  | array (reversed : List Json)
  | inline (table : Table) (key : List String)

/-- What a key is read for: the header of a table or of a table in a list, or a
value. -/
inductive KeyUse where
  | header
  | listHeader
  | value
deriving DecidableEq

inductive Expect where
  | statement
  /-- After the bracket of a header, which may be double. -/
  | header
  | keyPart (use : KeyUse)
  | keyNext (use : KeyUse)
  | secondBracket
  | value
  | scalar (chars : List Char)
  | scalarSpace (chars : List Char)
  | lineEnd
  | itemNext
  | memberFirst
  | memberNext

structure State where
  root : Table
  header : List String
  stack : List Frame
  /-- The parts of the key that is being read, the last first. -/
  parts : List String
  /-- The key of the line. -/
  key : List String
  expect : Expect

namespace State

def start : State := ⟨[], [], [], [], [], .statement⟩

def place (s : State) (v : Json) : Option State :=
  match s.stack with
  | [] =>
    (s.root.at? (Table.define? v s.key) s.header).map fun root =>
      { s with root, expect := .lineEnd }
  | .array items :: rest =>
    some { s with stack := .array (v :: items) :: rest, expect := .itemNext }
  | .inline table key :: rest =>
    (table.define? v key).map fun table =>
      { s with stack := .inline table [] :: rest, expect := .memberNext }

def close (s : State) (c : Char) : Option State :=
  match c, s.stack with
  | ']', .array items :: rest => { s with stack := rest }.place (.array items.reverse)
  | '\x7d', .inline table _ :: rest => { s with stack := rest }.place table.toJson
  | _, _ => none

/-- Makes the key that was read the one of the value to come. -/
def keyRead (s : State) : State :=
  let key := s.parts.reverse
  match s.stack with
  | .inline table _ :: rest =>
    { s with stack := .inline table key :: rest, parts := [], expect := .value }
  | _ => { s with key, parts := [], expect := .value }

/-- Opens the table that a header names by the key that was read. -/
def openHeader (s : State) (f : String → Table → Option Table) (expect : Expect) : Option State :=
  match s.parts with
  | [] => none
  | k :: parents =>
    (s.root.at? (f k) parents.reverse).map fun root =>
      { s with root, header := s.parts.reverse, parts := [], expect }

/-- A bare key is made of letters, digits, underscores and dashes. -/
def isBareKey (chars : List Char) : Bool :=
  chars.all fun c => c.isAlphanum || c == '_' || c == '-'

def keyPart (s : State) (use : KeyUse) (t : Token) : Option State :=
  match t with
  | .word chars =>
    if isBareKey chars then
      some { s with parts := String.ofList chars :: s.parts, expect := .keyNext use }
    else none
  | .text part false => some { s with parts := part :: s.parts, expect := .keyNext use }
  | .space _ => some { s with expect := .keyPart use }
  | _ => none

def keyNext (s : State) (use : KeyUse) (t : Token) : Option State :=
  match t, use with
  | .space _, _ => some s
  | .mark '.', _ =>
    if s.parts.length < maxNesting then some { s with expect := .keyPart use } else none
  | .mark '=', .value => some s.keyRead
  | .mark ']', .header => s.openHeader Table.open? .lineEnd
  | .mark ']', .listHeader => s.openHeader Table.append? .secondBracket
  | _, _ => none

def opened (s : State) (frame : Frame) (expect : Expect) : Option State :=
  if s.stack.length < maxNesting then some { s with stack := frame :: s.stack, expect } else none

/-- Takes the beginning of a value. Lines may end before a value of an array. -/
def valueStart (s : State) (t : Token) : Option State :=
  match t with
  | .space _ => some s
  | .lineEnd =>
    match s.stack with
    | .array _ :: _ => some s
    | _ => none
  | .text value _ => s.place (.string value)
  | .word chars => some { s with expect := .scalar chars }
  | .mark '[' => s.opened (.array []) .value
  | .mark '\x7b' => s.opened (.inline [] []) .memberFirst
  | .mark ']' => s.close ']'
  | _ => none

def settled (s : State) (t : Token) : Option State :=
  match s.expect with
  | .statement =>
    match t with
    | .space _ | .lineEnd => some s
    | .mark '[' => some { s with expect := .header }
    | t => s.keyPart .value t
  | .header =>
    match t with
    | .mark '[' => some { s with expect := .keyPart .listHeader }
    | t => s.keyPart .header t
  | .keyPart use => s.keyPart use t
  | .keyNext use => s.keyNext use t
  | .secondBracket => if t = .mark ']' then some { s with expect := .lineEnd } else none
  | .value => s.valueStart t
  | .lineEnd =>
    match t with
    | .space _ => some s
    | .lineEnd => some { s with expect := .statement }
    | _ => none
  | .itemNext =>
    match t with
    | .space _ | .lineEnd => some s
    | .mark ',' => some { s with expect := .value }
    | .mark ']' => s.close ']'
    | _ => none
  | .memberFirst =>
    match t with
    | .space _ | .lineEnd => some s
    | .mark '\x7d' => s.close '\x7d'
    | t => s.keyPart .value t
  | .memberNext =>
    match t with
    | .space _ | .lineEnd => some s
    | .mark ',' => some { s with expect := .memberFirst }
    | .mark '\x7d' => s.close '\x7d'
    | _ => none
  | .scalar _ | .scalarSpace _ => none

/-- Ends a bare word before a token. -/
def finishScalar (s : State) (chars : List Char) (t : Token) : Option State :=
  ((Scalar.read? chars).bind s.place).bind (settled · t)

/-- Takes a token. A bare word goes on over points, and a date over one space
to a time. -/
def step (s : State) (t : Token) : Option State :=
  match s.expect, t with
  | .scalar chars, .word more => some { s with expect := .scalar (chars ++ more) }
  | .scalar chars, .mark '.' => some { s with expect := .scalar (chars ++ ['.']) }
  | .scalar chars, .space true =>
    if Scalar.isDate chars then some { s with expect := .scalarSpace chars }
    else s.finishScalar chars t
  | .scalar chars, t => s.finishScalar chars t
  | .scalarSpace chars, .word more => some { s with expect := .scalar (chars ++ ' ' :: more) }
  | .scalarSpace chars, t => s.finishScalar chars t
  | _, t => s.settled t

def finish (s : State) : Option Json :=
  match s.expect with
  | .statement => some s.root.toJson
  | _ => none

end State

/-- A text without the mark of byte order that it may begin with. -/
def withoutMark (text : String) : String :=
  match text.toList with
  | '\ufeff' :: rest => String.ofList rest
  | _ => text

def read? (text : String) : Option Json :=
  (Token.read? (withoutMark text)).bind fun tokens =>
    (tokens.foldlM State.step .start).bind State.finish

end FormTree.Toml
