import FormTree.Validation.Pattern.Property
import FormTree.Validation.Pattern.Syntax

/-!
Regular expressions with references back, look-around, conditions and groups
that give nothing back. Here it is decided whether an expression can be
matched: every reference has a group, what is looked back for has a fixed
length, and repetitions do not make the expression too large.
-/

namespace FormTree.Pattern

/-- What decides whether an expression may be repeated or looked back for. -/
inductive Kind where
  | nothing
  /-- A condition on the place, which takes no character. -/
  | edge
  | plain
  /-- A choice, with a flag for each branch of a fixed length. -/
  | choice (fixed : List Bool)
deriving DecidableEq

structure Shape where
  kind : Kind
  least : Nat
  /-- All matches take as many characters. -/
  fixed : Bool
  /-- A match may have to be tried in several ways. -/
  hard : Bool
  /-- The room that an automaton for the expression takes. -/
  room : Nat

namespace Shape

def nothing : Shape := ⟨.nothing, 0, true, false, 0⟩

def edge (hard : Bool) : Shape := ⟨.edge, 0, true, hard, 40⟩

def set (room : Nat) : Shape := ⟨.plain, 1, true, false, room⟩

/-- The room of a state of an automaton. -/
def stateRoom : Nat := 32

/-- The room of a set with characters beyond the first 128, and of a property. -/
def wideRoom : Nat := 400

def propertyRoom : Nat := 20000

def literal (c : Char) : Shape := set (stateRoom * c.utf8Size)

def reference : Shape := ⟨.plain, 0, false, true, stateRoom⟩

def isRepeatable (e : Shape) : Bool := e.kind ≠ .nothing && e.kind ≠ .edge

def append (a b : Shape) : Shape :=
  if a.kind = .nothing then b
  else if b.kind = .nothing then a
  else ⟨.plain, a.least + b.least, a.fixed && b.fixed, a.hard || b.hard, a.room + b.room⟩

def choice (first : Shape) (more : List Shape) : Shape :=
  let all := first :: more
  { kind := .choice (all.map Shape.fixed)
    least := more.foldl (fun n e => min n e.least) first.least
    fixed := all.all fun e => e.fixed && e.least == first.least
    hard := all.any Shape.hard
    room := all.foldl (fun n e => n + e.room) stateRoom }

def group (e : Shape) : Shape := { e with kind := .plain, room := e.room + 2 * stateRoom }

/-- A group that gives nothing back once it has matched. -/
def atomic (e : Shape) : Shape := { e with kind := .plain, hard := true }

/-- An expression some times over; without a greatest number any times. -/
def times (e : Shape) (low : Nat) (high : Option Nat) : Shape :=
  { kind := .plain
    least := e.least * low
    fixed := e.fixed && high == some low
    hard := e.hard
    room := if e.hard then e.room else (e.room + stateRoom) * high.getD (low + 1) }

/-- An expression can be looked back for when it has a fixed length, or is a
choice of such. -/
def isBackward (e : Shape) : Bool :=
  e.fixed ||
    match e.kind with
    | .choice fixed => fixed.all id
    | _ => false

end Shape

structure Scope where
  /-- White space and comments do not count. -/
  free : Bool := false
  groups : Nat := 0
  names : List (String × Nat) := []
  references : List Nat := []
  /-- A reference by number has been met. -/
  numbered : Bool := false
  /-- References by number are below this. -/
  bound : Nat

/-- Drops a comment in a group, after its mark. -/
def dropComment? : List Char → Option (List Char)
  | [] | ['\\'] => none
  | ')' :: rest => some rest
  | '\\' :: _ :: rest => dropComment? rest
  | _ :: rest => dropComment? rest

/-- Drops what does not count. -/
def skip? (free : Bool) : Nat → List Char → Option (List Char)
  | 0, text => some text
  | fuel + 1, text =>
    match text with
    | '(' :: '?' :: '#' :: rest => (dropComment? rest).bind (skip? free fuel)
    | c :: rest =>
      if free ∧ c = '#' then skip? free fuel ((rest.dropWhile (· ≠ '\n')).drop 1)
      else if free ∧ c ∈ [' ', '\r', '\n', '\t'] then skip? free fuel rest
      else some text
    | [] => some []

def Scope.skip? (s : Scope) (text : List Char) : Option (List Char) :=
  Pattern.skip? s.free (text.length + 1) text

def isIdentifierChar (c : Char) : Bool := c == '_' || c.isAlphanum || 128 ≤ c.toNat

def identifier? (opening closing : List Char) (text : List Char) : Option (String × List Char) :=
  let body := text.drop opening.length
  let name := body.takeWhile isIdentifierChar
  let rest := body.drop name.length
  if opening.isPrefixOf text ∧ name ≠ [] ∧ closing.isPrefixOf rest then
    some (String.ofList name, rest.drop closing.length)
  else none

def decimal? (text : List Char) : Option (Nat × List Char) :=
  match readDigits false decimalValue? 10 text.length none text with
  | (some n, rest) => some (n, rest)
  | (none, _) => none

def Scope.refer (s : Scope) (group : Nat) : Scope := { s with references := group :: s.references }

def Scope.numberReference? (s : Scope) (text : List Char) : Option (Shape × Scope × List Char) :=
  (decimal? text).bind fun (n, rest) =>
    if n < s.bound then some (.reference, { s.refer n with numbered := true }, rest) else none

/-- Reads a reference by name. A name that no group has may be a number. -/
def Scope.nameReference? (s : Scope) (opening closing : List Char) (text : List Char) :
    Option (Shape × Scope × List Char) := do
  let (name, rest) ← identifier? opening closing text
  let group ← s.names.lookup name <|> (decimal? name.toList).bind fun (n, left) =>
    if left.isEmpty then some n else none
  return (.reference, s.refer group, rest)

/-- Reads a character by its code point; braces hold eight digits at most. -/
def hex? (digits : Nat) (text : List Char) : Option (Char × List Char) :=
  let plain := (text.take digits).map hexValue?
  let (value, rest) :=
    if plain.length = digits ∧ plain.all Option.isSome then
      (some (plain.foldl (fun n d => n * 16 + d.getD 0) 0), text.drop digits)
    else
      match text with
      | '\x7b' :: body =>
        let inner := body.takeWhile fun c => (hexValue? c).isSome
        match body.drop inner.length with
        | '\x7d' :: rest =>
          if inner ≠ [] ∧ inner.length ≤ 8 then
            (some (inner.foldl (fun n c => n * 16 + (hexValue? c).getD 0) 0), rest)
          else (none, [])
        | _ => (none, [])
      | _ => (none, [])
  value.bind fun n => if n.isValidChar then some (Char.ofNat n, rest) else none

/-- Reads a property that is known, in braces or of one letter. -/
def property? (text : List Char) : Option (List Char × List Char) :=
  match text with
  | '\x7b' :: body =>
    let name := body.takeWhile (· ≠ '\x7d')
    match body.drop name.length with
    | [] => none
    | _ :: rest => if Property.isKnown name then some (name, rest) else none
  | c :: rest => if Property.isClassName [c] then some ([c], rest) else none
  | [] => none

/-- What an escape stands for. In a class, where a set is meant, its text is
kept. -/
inductive Escaped where
  | literal (c : Char)
  | set (text : List Char) (room : Nat)
  | shape (e : Shape)

/-- The character of an escape by letter, of which there are two more here. -/
def extendedEscape? (c : Char) : Option Char :=
  match c with
  | 'a' => some '\x07'
  | 'b' => some '\x08'
  | 'e' => some '\x1b'
  | c => letterEscape? c

/-- Escapes that stand for a place. Inside a class they are letters. -/
def placeLetters : List Char := ['k', 'A', 'z', 'b', 'B', '<', '>', 'K', 'G']

/-- Reads an escape outside a class that takes no character of its own. -/
def Scope.place? (s : Scope) (c : Char) (rest : List Char) : Option (Shape × Scope × List Char) :=
  match c, rest with
  | 'k', '\'' :: _ => s.nameReference? ['\''] ['\''] rest
  | 'k', _ => s.nameReference? ['<'] ['>'] rest
  | 'A', _ | 'z', _ => some (.edge false, s, rest)
  | 'Z', _ | '<', _ | '>', _ => some (.edge true, s, rest)
  | 'b', '\x7b' :: _ | 'B', '\x7b' :: _ => none
  | 'b', _ | 'B', _ => some (.edge true, s, rest)
  | 'K', _ | 'G', _ => some (⟨.plain, 0, true, true, Shape.stateRoom⟩, s, rest)
  | _, _ => none

def Scope.escape? (s : Scope) (inClass : Bool) (text : List Char) :
    Option (Escaped × Scope × List Char) :=
  match text with
  | [] => none
  | c :: rest =>
    if c.isDigit then
      (s.numberReference? text).map fun (e, s, rest) => (.shape e, s, rest)
    else if !inClass && (c = 'Z' || c ∈ placeLetters) then
      (s.place? c rest).map fun (e, s, rest) => (.shape e, s, rest)
    else if c ∈ ['d', 's', 'w', 'h'] then some (.set ['0', '-', '9'] 64, s, rest)
    else if c ∈ ['D', 'S', 'W', 'H'] then
      some (.set ['[', '^', '0', '-', '9', ']'] Shape.wideRoom, s, rest)
    else
      match hexLength? c with
      | some digits => (hex? digits rest).map fun (e, rest) => (.literal e, s, rest)
      | none =>
        if (c = 'p' ∨ c = 'P') ∧ rest ≠ [] then
          (property? rest).map fun (_, rest) =>
            (.set ['\\', 'p', 'L'] Shape.propertyRoom, s, rest)
        else
          match extendedEscape? c with
          | some e => some (.literal e, s, rest)
          | none =>
            if c.isAlpha ∧ c ∉ placeLetters then none else some (.literal c, s, rest)

/-- A character of a class, escaped where it might mean something else. -/
def classText (c : Char) : List Char := if isEscapable c then ['\\', c] else [c]

/-- Reads the inside of classes of which a number are open, and gives their
text in reverse with the room they take. -/
def Scope.classBody? (s : Scope) : Nat → Nat → List Char × Nat → List Char →
    Option ((List Char × Nat) × Scope × List Char)
  | 0, _, _, _ => none
  | fuel + 1, left, (read, room), text =>
    match text with
    | [] => none
    | '\\' :: rest => do
      let (item, s, rest) ← s.escape? true rest
      match item with
      | .literal c => s.classBody? fuel left ((classText c).reverse ++ read, room) rest
      | .set t r => s.classBody? fuel left (t.reverse ++ read, room + r) rest
      | .shape _ => none
    | '[' :: rest => s.classBody? fuel (left + 1) ('[' :: read, room) rest
    | ']' :: rest =>
      if left ≤ 1 then some ((']' :: read, room), s, rest)
      else s.classBody? fuel (left - 1) (']' :: read, room) rest
    | c :: rest =>
      s.classBody? fuel left (c :: read, if 128 ≤ c.toNat then max room Shape.wideRoom else room)
        rest

def Scope.class? (s : Scope) (text : List Char) : Option (Shape × Scope × List Char) := do
  let (lead, rest) :=
    match text with
    | '^' :: rest => (['^', '['], rest)
    | rest => (['['], rest)
  let (lead, rest) :=
    match rest with
    | ']' :: rest => (']' :: lead, rest)
    | rest => (lead, rest)
  let room := if '^' ∈ lead then Shape.wideRoom else 64
  let ((read, room), s, rest) ← s.classBody? (rest.length + 1) 1 (lead, room) rest
  match readWholeClass false read.reverse with
  | .ok [] => return (.set room, s, rest)
  | _ => none

def Scope.counts? (s : Scope) (text : List Char) : Option ((Nat × Option Nat) × List Char) := do
  let start ← s.skip? text
  let (low, rest) ←
    match start with
    | ',' :: _ => some (0, start)
    | _ => decimal? start
  match ← s.skip? rest with
  | '\x7d' :: rest => return ((low, some low), rest)
  | ',' :: rest =>
    let rest ← s.skip? rest
    let (high, rest) :=
      match decimal? rest with
      | some (n, rest) => (some n, rest)
      | none => (none, rest)
    match ← s.skip? rest with
    | '\x7d' :: rest => return ((low, high), rest)
    | _ => none
  | _ => none

/-- The counts of a quantifier that begins a text. -/
def Scope.quantifier? (s : Scope) (text : List Char) : Option ((Nat × Option Nat) × List Char) :=
  match text with
  | '?' :: rest => some ((0, some 1), rest)
  | '*' :: rest => some ((0, none), rest)
  | '+' :: rest => some ((1, none), rest)
  | '\x7b' :: rest => s.counts? rest
  | _ => none

/-- Repeats an expression, perhaps as little as it can or without giving
anything back. -/
def Scope.repeated? (s : Scope) (e : Shape) (counts : Nat × Option Nat) (text : List Char) :
    Option (Shape × Scope × List Char) := do
  if !e.isRepeatable || counts.2.any (· < counts.1) then none
  let rest := dropLazy (← s.skip? text)
  let e := e.times counts.1 counts.2
  match rest with
  | '+' :: rest => return (e.atomic, s, rest)
  | rest => return (e, s, rest)

def Scope.close? (s : Scope) (text : List Char) : Option (List Char) := do
  match ← s.skip? text with
  | ')' :: rest => return rest
  | _ => none

def Scope.flags? (s : Scope) (negated some' : Bool) : List Char → Option (Scope × Char × List Char)
  | [] => none
  | c :: rest =>
    if c ∈ ['i', 'm', 's', 'U'] then s.flags? negated true rest
    else if c = 'x' then { s with free := !negated }.flags? negated true rest
    else if c = 'u' then if negated then none else s.flags? negated true rest
    else if c = '-' then if negated then none else s.flags? true false rest
    else if c = ')' then if some' then some (s, c, rest) else none
    else if c = ':' then if negated && !some' then none else some (s, c, rest)
    else none

/-- The deepest that groups may nest. -/
def maxGroups : Nat := 64

mutual

/-- Reads branches up to the end of a group. -/
def alternation? (depth : Nat) (s : Scope) : Nat → List Char → Option (Shape × Scope × List Char)
  | 0, _ => none
  | fuel + 1, text => do
    let (first, s, rest) ← branch? depth s fuel text
    let (more, s, rest) ← branches? depth s fuel rest
    if more.isEmpty then
      if s.numbered && !s.names.isEmpty then none else return (first, s, rest)
    else return (.choice first more, s, rest)

def branches? (depth : Nat) (s : Scope) : Nat → List Char → Option (List Shape × Scope × List Char)
  | 0, _ => none
  | fuel + 1, text => do
    match ← s.skip? text with
    | '|' :: rest =>
      let (e, s, rest) ← branch? depth s fuel rest
      let (more, s, rest) ← branches? depth s fuel rest
      return (e :: more, s, rest)
    | rest => return ([], s, rest)

def branch? (depth : Nat) (s : Scope) : Nat → List Char → Option (Shape × Scope × List Char)
  | 0, _ => none
  | fuel + 1, text => do
    if text.isEmpty then return (.nothing, s, [])
    let (e, after, rest) ← piece? depth s fuel text
    if rest.length = text.length then return (.nothing, s, text)
    let (more, s, rest) ← branch? depth after fuel rest
    return (e.append more, s, rest)

def piece? (depth : Nat) (s : Scope) : Nat → List Char → Option (Shape × Scope × List Char)
  | 0, _ => none
  | fuel + 1, text => do
    let (e, s, rest) ← atom? depth s fuel text
    let rest ← s.skip? rest
    match s.quantifier? rest with
    | some (counts, rest) => s.repeated? e counts rest
    | none => return (e, s, rest)

def atom? (depth : Nat) (s : Scope) : Nat → List Char → Option (Shape × Scope × List Char)
  | 0, _ => none
  | fuel + 1, text => do
    match ← s.skip? text with
    | [] => return (.nothing, s, [])
    | '.' :: rest => return (.set Shape.wideRoom, s, rest)
    | '^' :: rest | '$' :: rest => return (.edge false, s, rest)
    | '(' :: rest => if maxGroups ≤ depth + 1 then none else group? (depth + 1) s fuel rest
    | '[' :: rest => s.class? rest
    | '\\' :: rest =>
      let (item, s, rest) ← s.escape? false rest
      match item with
      | .literal c => return (.literal c, s, rest)
      | .set _ room => return (.set room, s, rest)
      | .shape e => return (e, s, rest)
    | c :: rest =>
      if c ∈ ['+', '*', '?', '|', ')'] then return (.nothing, s, c :: rest)
      else return (.literal c, s, rest)

def group? (depth : Nat) (s : Scope) : Nat → List Char → Option (Shape × Scope × List Char)
  | 0, _ => none
  | fuel + 1, text => do
    let counted : Scope := { s with groups := s.groups + 1 }
    match ← s.skip? text with
    | '?' :: '=' :: rest | '?' :: '!' :: rest =>
      let (_, s, rest) ← alternation? depth s fuel rest
      return (.edge true, s, ← s.close? rest)
    | '?' :: '<' :: '=' :: rest | '?' :: '<' :: '!' :: rest =>
      let (e, s, rest) ← alternation? depth s fuel rest
      if e.isBackward then return (.edge true, s, ← s.close? rest) else none
    | '?' :: 'P' :: '<' :: rest | '?' :: '<' :: rest =>
      let (name, rest) ← identifier? [] ['>'] rest
      let named : Scope := { counted with names := (name, counted.groups) :: s.names }
      let (e, s, rest) ← alternation? depth named fuel rest
      return (e.group, s, ← s.close? rest)
    | '?' :: 'P' :: '=' :: rest => s.nameReference? [] [')'] rest
    | '?' :: 'P' :: '>' :: _ => none
    | '?' :: '>' :: rest =>
      let (e, s, rest) ← alternation? depth s fuel rest
      return (e.atomic, s, ← s.close? rest)
    | '?' :: '(' :: rest => condition? depth s fuel rest
    | '?' :: rest =>
      let (changed, mark, rest) ← s.flags? false false rest
      if mark = ')' then return (.nothing, changed, rest)
      let (e, inner, rest) ← alternation? depth changed fuel rest
      match rest with
      | ')' :: rest => return (e, { inner with free := s.free }, rest)
      | _ => none
    | rest =>
      let (e, s, rest) ← alternation? depth counted fuel rest
      return (e.group, s, ← s.close? rest)

def condition? (depth : Nat) (s : Scope) : Nat → List Char → Option (Shape × Scope × List Char)
  | 0, _ => none
  | fuel + 1, text => do
    let (c, s, rest) ←
      match text with
      | '\'' :: _ => s.nameReference? ['\''] ['\''] text
      | '<' :: _ => s.nameReference? ['<'] ['>'] text
      | d :: _ => if d.isDigit then s.numberReference? text else alternation? depth s fuel text
      | [] => none
    let rest ← s.close? rest
    let (e, s, after) ← alternation? depth s fuel rest
    if after.length = rest.length ∧ e.kind = .nothing ∧ text.head?.all (!·.isDigit) then none
    return ({ c.append e with kind := .plain, fixed := false, hard := true }, s, ← s.close? after)

end

/-- The room that an automaton may take. -/
def maxRoom : Nat := 10 <<< 20

def isMatchable (text : List Char) : Bool :=
  let bytes := text.foldl (fun n c => n + c.utf8Size) 0
  match alternation? 0 { bound := bytes / 2 } (6 * text.length + 10) text with
  | some (e, s, []) =>
    s.references.all (fun n => 1 ≤ n && n ≤ s.groups) && (e.hard || e.room ≤ maxRoom)
  | _ => false

end FormTree.Pattern
