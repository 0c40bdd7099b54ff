import FormTree.Json.Reader

/-!
The tokens of TOML text, read one character at a time. Comments leave no
token, and a text comes out with its escapes resolved.
-/

namespace FormTree.Toml

inductive Token where
  /-- White space inside a line. It matters only next to words, where a `single`
  space may stand between a date and a time. -/
  | space (single : Bool)
  | lineEnd
  /-- One of the characters that stand for themselves. -/
  | mark (c : Char)
  | word (chars : List Char)
  /-- A quoted text, which may have gone over several lines. -/
  | text (value : String) (multiline : Bool)
deriving DecidableEq, Repr

namespace Token

inductive Spot where
  | plain
  /-- After a carriage return, which only a new line may follow. -/
  | carriage
  /-- After the opening of a text of several lines; a new line here does not
  count. -/
  | opened
  | openedCarriage
  /-- After quotes that may be the end of a text of several lines. -/
  | quotes (count : Nat)
  | escape
  | hex (left value : Nat)
  /-- After a backslash at the end of a line, before the end of the line. -/
  | skip
  | skipCarriage
  /-- After a backslash at the end of a line, on the lines that follow. -/
  | skipLines
deriving DecidableEq

structure Quoted where
  quote : Char
  multiline : Bool
  reversed : List Char := []
  spot : Spot := .plain

inductive Scan where
  | between
  | carriage
  | comment
  | space (single : Bool)
  | word (reversed : List Char)
  /-- After one or two quotes at the beginning of a text. -/
  | opening (quote : Char) (two : Bool)
  | quoted (q : Quoted)

/-- The tokens so far, the last first, and what is being read. -/
structure State where
  reversed : List Token
  scan : Scan

def State.start : State := ⟨[], .between⟩

def isWordChar (c : Char) : Bool :=
  c.isAlphanum || c == '_' || c == '-' || c == '+' || c == ':'

def isMark (c : Char) : Bool :=
  c ∈ ['[', ']', '\x7b', '\x7d', ',', '=', '.']

def isControl (c : Char) : Bool := (c.toNat < 0x20 && c != '\t') || c.toNat == 0x7F

def between (tokens : List Token) (c : Char) : Option State :=
  if c = ' ' then some ⟨tokens, .space true⟩
  else if c = '\t' then some ⟨tokens, .space false⟩
  else if c = '\n' then some ⟨.lineEnd :: tokens, .between⟩
  else if c = '\r' then some ⟨tokens, .carriage⟩
  else if c = '#' then some ⟨tokens, .comment⟩
  else if c = '"' ∨ c = '\'' then some ⟨tokens, .opening c false⟩
  else if isMark c then some ⟨.mark c :: tokens, .between⟩
  else if isWordChar c then some ⟨tokens, .word [c]⟩
  else none

def escaped? (c : Char) : Option Char :=
  match c with
  | 'b' => some '\x08'
  | 't' => some '\t'
  | 'n' => some '\n'
  | 'f' => some '\x0c'
  | 'r' => some '\r'
  | 'e' => some '\x1b'
  | '"' => some '"'
  | '\\' => some '\\'
  | _ => none

def hexLength? (c : Char) : Option Nat :=
  match c with
  | 'x' => some 2
  | 'u' => some 4
  | 'U' => some 8
  | _ => none

def charOf? (n : Nat) : Option Char :=
  if n.isValidChar then some (Char.ofNat n) else none

namespace Quoted

def push (q : Quoted) (chars : List Char) : Quoted :=
  { q with reversed := chars.reverse ++ q.reversed, spot := .plain }

/-- The token of a text, with quotes at its end that belong to it. -/
def token (q : Quoted) (quotes : Nat) : Token :=
  .text (String.ofList (q.reversed.reverse ++ List.replicate quotes q.quote)) q.multiline

/-- Reads a character of a text that stands for itself or ends the text. -/
def plain (q : Quoted) (c : Char) : Option (Quoted ⊕ Token) :=
  if c = q.quote then
    if q.multiline then some (.inl { q with spot := .quotes 1 }) else some (.inr (q.token 0))
  else if c = '\\' ∧ q.quote = '"' then some (.inl { q with spot := .escape })
  else if c = '\n' then if q.multiline then some (.inl (q.push [c])) else none
  else if c = '\r' then if q.multiline then some (.inl { q with spot := .carriage }) else none
  else if isControl c then none
  else some (.inl (q.push [c]))

def escape (q : Quoted) (c : Char) : Option Quoted :=
  match escaped? c, hexLength? c with
  | some e, _ => some (q.push [e])
  | none, some n => some { q with spot := .hex n 0 }
  | none, none =>
    if ¬ q.multiline then none
    else if c = ' ' ∨ c = '\t' then some { q with spot := .skip }
    else if c = '\n' then some { q with spot := .skipLines }
    else if c = '\r' then some { q with spot := .skipCarriage }
    else none

def hex (q : Quoted) (left value : Nat) (c : Char) : Option Quoted :=
  (Json.Reader.hexValue? c).bind fun d =>
    let value := 16 * value + d
    if left ≤ 1 then (charOf? value).map fun e => q.push [e]
    else some { q with spot := .hex (left - 1) value }

def step (q : Quoted) (c : Char) : Option (Quoted ⊕ Token) :=
  match q.spot with
  | .plain => q.plain c
  | .carriage => if c = '\n' then some (.inl (q.push ['\r', '\n'])) else none
  | .opened =>
    if c = '\n' then some (.inl { q with spot := .plain })
    else if c = '\r' then some (.inl { q with spot := .openedCarriage })
    else plain { q with spot := .plain } c
  | .openedCarriage => if c = '\n' then some (.inl { q with spot := .plain }) else none
  | .quotes n =>
    if c = q.quote then
      if n = 4 then some (.inr (q.token 2)) else some (.inl { q with spot := .quotes (n + 1) })
    else (q.push (List.replicate n q.quote)).plain c
  | .escape => (q.escape c).map .inl
  | .hex left value => (q.hex left value c).map .inl
  | .skip =>
    if c = ' ' ∨ c = '\t' then some (.inl q)
    else if c = '\n' then some (.inl { q with spot := .skipLines })
    else if c = '\r' then some (.inl { q with spot := .skipCarriage })
    else none
  | .skipCarriage => if c = '\n' then some (.inl { q with spot := .skipLines }) else none
  | .skipLines =>
    if c = ' ' ∨ c = '\t' ∨ c = '\n' then some (.inl q)
    else if c = '\r' then some (.inl { q with spot := .skipCarriage })
    else plain { q with spot := .plain } c

/-- The token of a text that ends with the quotes before the character. -/
def closed? (q : Quoted) (c : Char) : Option Token :=
  match q.spot with
  | .quotes n => if 3 ≤ n ∧ c ≠ q.quote then some (q.token (n - 3)) else none
  | _ => none

end Quoted

def quoted (tokens : List Token) (q : Quoted) (c : Char) : Option State :=
  match q.closed? c with
  | some token => between (token :: tokens) c
  | none =>
    (q.step c).map fun r =>
      match r with
      | .inl q => ⟨tokens, .quoted q⟩
      | .inr token => ⟨token :: tokens, .between⟩

def step (s : State) (c : Char) : Option State :=
  match s.scan with
  | .between => between s.reversed c
  | .carriage => if c = '\n' then some ⟨.lineEnd :: s.reversed, .between⟩ else none
  | .comment =>
    if c = '\n' ∨ c = '\r' then between s.reversed c
    else if isControl c then none
    else some s
  | .space single =>
    if c = ' ' ∨ c = '\t' then some ⟨s.reversed, .space false⟩
    else between (.space single :: s.reversed) c
  | .word chars =>
    if isWordChar c then some ⟨s.reversed, .word (c :: chars)⟩
    else between (.word chars.reverse :: s.reversed) c
  | .opening quote two =>
    if c = quote then
      if two then some ⟨s.reversed, .quoted { quote, multiline := true, spot := .opened }⟩
      else some ⟨s.reversed, .opening quote true⟩
    else if two then between (.text "" false :: s.reversed) c
    else quoted s.reversed { quote, multiline := false } c
  | .quoted q => quoted s.reversed q c

/-- Ends the last line of a text, which may not be half ended. -/
def State.finish (s : State) : Option State :=
  match s.scan with
  | .carriage => none
  | _ => step s '\n'

/-- The tokens of a whole text, to which the end of a line is added. -/
def read? (text : String) : Option (List Token) :=
  ((text.toList.foldlM step .start).bind State.finish).bind fun s =>
    match s.scan with
    | .between => some s.reversed.reverse
    | _ => none

end Token
end FormTree.Toml
