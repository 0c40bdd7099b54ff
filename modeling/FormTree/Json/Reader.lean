import FormTree.Entries
import FormTree.Json
import FormTree.Numeral

/-!
Reading of JSON text, one character at a time. The reader keeps what it has
scanned of a string or word, the containers that are still open, and what may
come next; a text is a value when the whole of it can be read and leaves no
container open.
-/

namespace FormTree

namespace Numeral

/-- The form of JSON: no plus sign, no leading zero, and digits on both sides of
a point. -/
def isJson (n : Numeral) : Bool :=
  n.sign != some '+' && n.fraction != some [] &&
    match n.whole with
    | [] => false
    | ['0'] => true
    | c :: _ => c != '0'

/-- The number a numeral stands for. A negative zero and integers beyond 64 bits
are binary64; `none` where that overflows. -/
def number? (n : Numeral) : Option Number :=
  let v := n.wholeValue
  if n.isWhole && !(n.negative && v == 0) && decide (Int64.minValue.toInt ≤ v) &&
      decide (v ≤ (maxWord : Int)) then some (.int v)
  else n.scaled?.map .float

end Numeral

namespace Json

namespace Reader

/-- A container whose end has not been read, with what it holds so far. An
object may hold the key of the member to come. -/
inductive Frame where
  | array (reversed : List Json)
  | object (members : List (String × Json)) (key : Option String)

inductive Expect where
  | value
  | first
  | key
  | colon
  | next
deriving DecidableEq

/-- The piece of text that is being scanned, with its characters so far in
reverse. -/
inductive Scan where
  | between
  | word (reversed : List Char)
  | text (reversed : List Char)
  | escape (reversed : List Char)
  | hex (reversed : List Char) (lead : Option Nat) (digits : List Char)
  | trail (reversed : List Char) (lead : Nat) (slash : Bool)

structure State where
  stack : List Frame
  expect : Expect
  result : Option Json
  scan : Scan

def State.start : State := ⟨[], .value, none, .between⟩

def place (s : State) (v : Json) : Option State :=
  match s.stack with
  | [] => some { s with result := some v, expect := .next }
  | .array items :: rest => some { s with stack := .array (v :: items) :: rest, expect := .next }
  | .object members (some k) :: rest =>
    some { s with stack := .object (Entries.put k v members) none :: rest, expect := .next }
  | .object _ none :: _ => none

def takesValue (s : State) : Bool :=
  match s.expect, s.stack with
  | .value, _ => true
  | .first, .array _ :: _ => true
  | _, _ => false

def placeText (s : State) (text : String) : Option State :=
  if takesValue s then place s (.string text)
  else
    match s.expect, s.stack with
    | .first, .object members _ :: rest | .key, .object members _ :: rest =>
      some { s with stack := .object members (some text) :: rest, expect := .colon }
    | _, _ => none

def wordValue? (word : List Char) : Option Json :=
  if word = "null".toList then some .null
  else if word = "true".toList then some (.bool true)
  else if word = "false".toList then some (.bool false)
  else
    (Numeral.read? word).bind fun n =>
      if n.isJson then n.number?.map .number else none

def placeWord (s : State) (reversed : List Char) : Option State :=
  if takesValue s then
    (wordValue? reversed.reverse).bind (place { s with scan := .between })
  else none

/-- Opens a container, up to `limit` inside each other. -/
def openFrame (limit : Nat) (s : State) (f : Frame) : Option State :=
  if takesValue s && decide (s.stack.length < limit) then
    some { s with stack := f :: s.stack, expect := .first }
  else none

def between (limit : Nat) (s : State) (c : Char) : Option State :=
  if c = ' ' ∨ c = '\n' ∨ c = '\t' ∨ c = '\r' then some s
  else if c = '"' then some { s with scan := .text [] }
  else if c = '[' then openFrame limit s (.array [])
  else if c = '\x7b' then openFrame limit s (.object [] none)
  else if c = ']' then
    match s.expect, s.stack with
    | .first, .array items :: rest | .next, .array items :: rest =>
      place { s with stack := rest } (.array items.reverse)
    | _, _ => none
  else if c = '\x7d' then
    match s.expect, s.stack with
    | .first, .object members none :: rest | .next, .object members none :: rest =>
      place { s with stack := rest } (.object members)
    | _, _ => none
  else if c = ',' then
    match s.expect, s.stack with
    | .next, .array _ :: _ => some { s with expect := .value }
    | .next, .object _ _ :: _ => some { s with expect := .key }
    | _, _ => none
  else if c = ':' then
    if s.expect = .colon then some { s with expect := .value } else none
  else some { s with scan := .word [c] }

def endsWord (c : Char) : Bool :=
  c ∈ [' ', '\n', '\t', '\r', '"', '[', ']', '\x7b', '\x7d', ',', ':']

def escaped? (c : Char) : Option Char :=
  match c with
  | '"' => some '"'
  | '\\' => some '\\'
  | '/' => some '/'
  | 'b' => some '\x08'
  | 'f' => some '\x0c'
  | 'n' => some '\n'
  | 'r' => some '\r'
  | 't' => some '\t'
  | _ => none

def hexValue? (c : Char) : Option Nat :=
  if '0' ≤ c ∧ c ≤ '9' then some (c.toNat - '0'.toNat)
  else if 'a' ≤ c ∧ c ≤ 'f' then some (c.toNat - 'a'.toNat + 10)
  else if 'A' ≤ c ∧ c ≤ 'F' then some (c.toNat - 'A'.toNat + 10)
  else none

def hexNumber? (digits : List Char) : Option Nat :=
  digits.foldlM (fun n c => (hexValue? c).map (16 * n + ·)) 0

/-- Goes on after the four digits of an escape: half of a surrogate pair waits
for the other half, and no half stands alone. -/
def afterHex (read : List Char) (lead : Option Nat) (n : Nat) : Option Scan :=
  match lead with
  | none =>
    if 0xD800 ≤ n ∧ n < 0xDC00 then some (.trail read n false)
    else if 0xDC00 ≤ n ∧ n < 0xE000 then none
    else some (.text (Char.ofNat n :: read))
  | some l =>
    if 0xDC00 ≤ n ∧ n < 0xE000 then
      some (.text (Char.ofNat (0x10000 + (l - 0xD800) * 0x400 + (n - 0xDC00)) :: read))
    else none

def step (limit : Nat) (s : State) (c : Char) : Option State :=
  match s.scan with
  | .between => between limit s c
  | .word read =>
    if endsWord c then (placeWord s read).bind fun t => between limit t c
    else some { s with scan := .word (c :: read) }
  | .text read =>
    if c = '"' then placeText { s with scan := .between } (String.ofList read.reverse)
    else if c = '\\' then some { s with scan := .escape read }
    else if c.toNat < 0x20 then none
    else some { s with scan := .text (c :: read) }
  | .escape read =>
    if c = 'u' then some { s with scan := .hex read none [] }
    else (escaped? c).map fun e => { s with scan := .text (e :: read) }
  | .hex read lead digits =>
    if digits.length < 3 then some { s with scan := .hex read lead (digits ++ [c]) }
    else
      (hexNumber? (digits ++ [c])).bind fun n =>
        (afterHex read lead n).map fun scan => { s with scan := scan }
  | .trail read lead slash =>
    if slash then
      if c = 'u' then some { s with scan := .hex read (some lead) [] } else none
    else if c = '\\' then some { s with scan := .trail read lead true }
    else none

/-- The value read, if the text ends after it. -/
def finish (s : State) : Option Json :=
  let closed (s : State) : Option Json :=
    match s.expect, s.stack with
    | .next, [] => s.result
    | _, _ => none
  match s.scan with
  | .between => closed s
  | .word read => (placeWord s read).bind closed
  | _ => none

end Reader

/-- Reads a text in which at most `limit` containers stand inside each other. -/
def read? (limit : Nat) (text : String) : Option Json :=
  (text.toList.foldlM (Reader.step limit) Reader.State.start).bind Reader.finish

end Json
end FormTree
