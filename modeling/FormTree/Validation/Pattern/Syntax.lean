import FormTree.Text.Blank

/-!
The syntax of plain regular expressions, which have no references back and no
look-around. A text is read from left to right; what has been read is kept only
as far as it decides whether the rest may follow.
-/

namespace FormTree.Pattern

/-- Why reading ends before the text does. -/
inductive Stop where
  | refused
  /-- A reference back or a look-around, which plain expressions do not have. -/
  | beyond
  /-- The escape of a control character, before the letter that names it. -/
  | control (rest : List Char)

/-- What is read, and the text after it. -/
abbrev Reading (α : Type) := Except Stop (α × List Char)

/-- Drops white space and comments, from inside a comment or not. -/
def dropBlanks (inComment : Bool) : List Char → List Char
  | [] => []
  | c :: rest =>
    if inComment then dropBlanks (c != '\n') rest
    else if Text.isBlank c then dropBlanks false rest
    else if c = '#' then dropBlanks true rest
    else c :: rest

/-- The text from the next character that counts, where `free` says that white
space and comments do not. -/
def settle (free : Bool) (text : List Char) : List Char :=
  if free then dropBlanks false text else text

def advance (free : Bool) (text : List Char) : List Char := settle free (text.drop 1)

/-! ### Numbers -/

/-- The greatest number that a text may hold. -/
def maxNumber : Nat := UInt32.size - 1

/-- Reads digits into a number in a base, up to the first other character. -/
def readDigits (free : Bool) (value? : Char → Option Nat) (base : Nat) :
    Nat → Option Nat → List Char → Option Nat × List Char
  | 0, n, text => (n, text)
  | fuel + 1, n, text =>
    match text with
    | [] => (n, [])
    | c :: _ =>
      match value? c with
      | some d => readDigits free value? base fuel (some (n.getD 0 * base + d)) (advance free text)
      | none => (n, text)

def decimalValue? (c : Char) : Option Nat :=
  if c.isDigit then some (c.toNat - '0'.toNat) else none

def hexValue? (c : Char) : Option Nat :=
  if c.isDigit then some (c.toNat - '0'.toNat)
  else if 'a' ≤ c ∧ c ≤ 'f' then some (c.toNat - 'a'.toNat + 10)
  else if 'A' ≤ c ∧ c ≤ 'F' then some (c.toNat - 'A'.toNat + 10)
  else none

/-- Reads a count with the white space around it; `none` where no digit
stands. -/
def readCount (free : Bool) (text : List Char) : Reading (Option Nat) :=
  let start := text.dropWhile Text.isBlank
  let (n, rest) := readDigits free decimalValue? 10 start.length none start
  if (n.getD 0) ≤ maxNumber then .ok (n, settle free (rest.dropWhile Text.isBlank))
  else .error .refused

def charOf (n : Nat) (rest : List Char) : Reading Char :=
  if n.isValidChar then .ok (Char.ofNat n, rest) else .error .refused

/-- Reads an exact number of hexadecimal digits as a character. -/
def readHexDigits (free : Bool) (value : Nat) : Nat → List Char → Reading Char
  | 0, text => charOf value text
  | left + 1, text =>
    match text with
    | [] => .error .refused
    | c :: _ =>
      match hexValue? c with
      | some d => readHexDigits free (value * 16 + d) left (advance free text)
      | none => .error .refused

/-- Reads a character by its code point, with or without braces. -/
def readHex (free : Bool) (digits : Nat) (text : List Char) : Reading Char :=
  match text with
  | '\x7b' :: _ =>
    let inner := advance free text
    match readDigits free hexValue? 16 inner.length none inner with
    | (some n, '\x7d' :: rest) => charOf n (settle free rest)
    | _ => .error .refused
  | text => readHexDigits free 0 digits text

/-! ### Escapes -/

/-- What a character or an escape stands for. -/
inductive Item where
  | literal (c : Char)
  | set
  /-- A condition on the place, which takes no character. -/
  | edge
  /-- The bell, which only counts as a character inside a class. -/
  | bell
deriving DecidableEq

def hexLength? (c : Char) : Option Nat :=
  match c with
  | 'x' => some 2
  | 'u' => some 4
  | 'U' => some 8
  | _ => none

def letterEscape? (c : Char) : Option Char :=
  match c with
  | 'f' => some '\x0c'
  | 't' => some '\t'
  | 'n' => some '\n'
  | 'r' => some '\r'
  | 'v' => some '\x0b'
  | _ => none

/-- Characters that stand for themselves after a backslash. -/
def isEscapable (c : Char) : Bool :=
  c.toNat < 128 && !c.isAlphanum && c != '<' && c != '>'

/-- Reads the name of a property, in braces or of one character. -/
def readProperty (free : Bool) (text : List Char) : Reading Item :=
  match text with
  | [] => .error .refused
  | '\x7b' :: rest =>
    match rest.dropWhile (· ≠ '\x7d') with
    | [] => .error .refused
    | _ :: rest => .ok (.set, rest)
  | '\\' :: _ => .error .refused
  | text => .ok (.set, advance free text)

/-- The words that may stand in braces after the escape of a word's edge. -/
def edgeWords : List String := ["start", "end", "start-half", "end-half"]

/-- Reads what may follow the escape of a word's edge. Braces without letters
are a count of repetitions. -/
def readEdge (free : Bool) (text : List Char) : Reading Item :=
  let isLetter (c : Char) : Bool := c.isAlpha || c == '-'
  match text with
  | '\x7b' :: _ =>
    match advance free text with
    | [] => .error .refused
    | c :: rest =>
      if !isLetter c then .ok (.edge, text)
      else
        match (c :: rest).dropWhile isLetter with
        | '\x7d' :: after =>
          if String.ofList ((c :: rest).takeWhile isLetter) ∈ edgeWords then .ok (.edge, after)
          else .error .refused
        | _ => .error .refused
  | text => .ok (.edge, text)

def readEscape (free : Bool) : List Char → Reading Item
  | [] => .error .refused
  | c :: rest =>
    match hexLength? c, letterEscape? c with
    | some digits, _ =>
      (readHex free digits (settle free rest)).map fun r => (.literal r.1, r.2)
    | none, some e => .ok (.literal e, rest)
    | none, none =>
      if c.isDigit then .error .beyond
      else if c = 'p' ∨ c = 'P' then readProperty free (settle free rest)
      else if c ∈ ['d', 's', 'w', 'D', 'S', 'W'] then .ok (.set, rest)
      else if isEscapable c then .ok (.literal c, rest)
      else if c = 'a' then .ok (.bell, rest)
      else if c = 'b' then readEdge free rest
      else if c ∈ ['A', 'z', 'B', '<', '>'] then .ok (.edge, rest)
      else if c = 'c' then .error (.control rest)
      else .error .refused

/-! ### Classes -/

def bracketNames : List String :=
  ["alnum", "alpha", "ascii", "blank", "cntrl", "digit", "graph", "lower", "print", "punct",
    "space", "upper", "word", "xdigit"]

/-- The text after a class in double brackets, from its inner bracket on. -/
def afterBracketName? (text : List Char) : Option (List Char) :=
  match text with
  | '[' :: ':' :: rest =>
    let body :=
      match rest with
      | '^' :: body => body
      | body => body
    match body.dropWhile (· ≠ ':') with
    | ':' :: ']' :: rest =>
      if String.ofList (body.takeWhile (· ≠ ':')) ∈ bracketNames then some rest else none
    | _ => none
  | _ => none

/-- Drops the dashes at the beginning of a class. -/
def dropDashes (free : Bool) : Nat → List Char → List Char
  | 0, text => text
  | fuel + 1, text =>
    match text with
    | '-' :: _ => dropDashes free fuel (advance free text)
    | text => text

/-- Reads the opening of a class, from its bracket on: a caret, and dashes or a
closing bracket that stand for themselves. -/
def openClass (free : Bool) (text : List Char) : Except Stop (List Char) :=
  let start := advance free text
  let body :=
    match start with
    | '^' :: _ => advance free start
    | _ => start
  let rest :=
    match body with
    | ']' :: _ => advance free body
    | _ => dropDashes free body.length body
  if rest.isEmpty then .error .refused else .ok rest

def readItem (free : Bool) : List Char → Reading Item
  | [] => .error .refused
  | '\\' :: rest => readEscape free rest
  | c :: rest => .ok (.literal c, rest)

/-- The character that an item of a class may be the end of a range with. -/
def Item.char? : Item → Option Char
  | .literal c => some c
  | .bell => some '\x07'
  | .set | .edge => none

/-- A dash that makes no range: one before a closing bracket or another
dash. -/
def isLoneDash (free : Bool) (text : List Char) : Bool :=
  match settle free (text.drop 1) with
  | ']' :: _ | '-' :: _ => true
  | _ => false

def readRange (free : Bool) (text : List Char) : Except Stop (List Char) := do
  let (first, rest) ← readItem free text
  let rest := settle free rest
  match rest with
  | [] => throw .refused
  | c :: _ =>
    if c ≠ '-' ∨ isLoneDash free rest then
      if first = .edge then throw .refused else return rest
    else
      let (last, after) ← readItem free (advance free rest)
      match first.char?, last.char? with
      | some a, some b => if a ≤ b then return after else throw .refused
      | _, _ => throw .refused

/-- Reads the inside of classes of which a number are open, up to the end of
the first. -/
def readClass (free : Bool) : Nat → Nat → List Char → Except Stop (List Char)
  | 0, _, _ => .error .refused
  | fuel + 1, left, text =>
    let text := settle free text
    match text with
    | [] => .error .refused
    | ']' :: rest => if left ≤ 1 then .ok rest else readClass free fuel (left - 1) rest
    | '[' :: _ =>
      match afterBracketName? text with
      | some rest => readClass free fuel left rest
      | none => do readClass free fuel (left + 1) (← openClass free text)
    | '&' :: '&' :: rest | '-' :: '-' :: rest | '~' :: '~' :: rest =>
      readClass free fuel left rest
    | text => do readClass free fuel left (← readRange free text)

def readWholeClass (free : Bool) (text : List Char) : Except Stop (List Char) := do
  readClass free text.length 1 (← openClass free text)

/-! ### Groups -/

/-- A part of a concatenation: how deep it nests, and whether it may be
repeated. -/
structure Part where
  height : Nat
  repeatable : Bool

/-- A concatenation that is being read, beside the earlier branches of its
group. Parts and branches stand in reverse. -/
structure Level where
  parts : List Part := []
  branches : List Nat := []
  /-- White space and comments do not count. -/
  free : Bool := false

namespace Level

def branchHeight (l : Level) : Nat :=
  match l.parts with
  | [] => 0
  | [p] => p.height
  | parts => (parts.map Part.height).foldl max 0 + 1

def height (l : Level) : Nat :=
  match l.branches with
  | [] => l.branchHeight
  | branches => branches.foldl max l.branchHeight + 1

def push (l : Level) (p : Part) : Level := { l with parts := p :: l.parts }

end Level

/-- The groups around what is being read, the innermost first. -/
structure Syntax where
  level : Level := {}
  outer : List Level := []
  names : List String := []
  bell : Bool := false

/-- The deepest that an expression may nest. -/
def maxHeight : Nat := 250

def isNameStart (c : Char) : Bool := c == '_' || c.isAlpha || 128 ≤ c.toNat

def isNameChar (c : Char) : Bool := isNameStart c || c.isDigit || c ∈ ['.', '[', ']']

/-- Reads the name of a group, up to the angle bracket after it. -/
def readName (text : List Char) : Reading String :=
  let name := text.takeWhile isNameChar
  match name.head?, text.drop name.length with
  | some c, '>' :: rest =>
    if isNameStart c then .ok (String.ofList name, rest) else .error .refused
  | _, _ => .error .refused

def flagLetters : List Char := ['i', 'm', 's', 'U', 'u', 'R', 'x']

/-- Reads flags up to the colon or bracket after them. No flag and no dash
stands twice, and a flag follows the dash. -/
def readFlags (text : List Char) : Reading (List Char) :=
  let flags := text.takeWhile fun c => c ≠ ':' ∧ c ≠ ')'
  let rest := text.drop flags.length
  if rest.isEmpty ∨ flags.any (fun c => c ≠ '-' ∧ c ∉ flagLetters) ∨
      flags.eraseDups.length ≠ flags.length ∨ flags.getLast? = some '-' then .error .refused
  else .ok (flags, rest)

/-- Whether flags make white space count or not. -/
def freeFlag? (flags : List Char) : Option Bool :=
  if 'x' ∉ flags then none else some ('-' ∉ flags.takeWhile (· ≠ 'x'))

/-- Opens a group after its bracket, or sets flags for the rest of the group. -/
def openGroup (s : Syntax) (text : List Char) : Except Stop (Syntax × List Char) :=
  let free := s.level.free
  let enter (free : Bool) : Syntax := { s with level := { free }, outer := s.level :: s.outer }
  let named (rest : List Char) : Except Stop (Syntax × List Char) := do
    let (name, rest) ← readName rest
    if name ∈ s.names then throw .refused
    return ({ enter free with names := name :: s.names }, rest)
  match settle free text with
  | '?' :: '=' :: _ | '?' :: '!' :: _ | '?' :: '<' :: '=' :: _ | '?' :: '<' :: '!' :: _ =>
    .error .beyond
  | '?' :: 'P' :: '<' :: rest | '?' :: '<' :: rest => named rest
  | '?' :: rest => do
    let (flags, rest) ← readFlags rest
    let changed := (freeFlag? flags).getD free
    match flags, rest with
    | _, ':' :: rest => return (enter changed, rest)
    | [], _ => throw .refused
    | _, rest =>
      let level := { s.level.push ⟨0, false⟩ with free := changed }
      return ({ s with level }, rest.drop 1)
  | rest => .ok (enter free, rest)

def closeGroup (s : Syntax) : Except Stop Syntax :=
  match s.outer with
  | [] => .error .refused
  | l :: outer =>
    .ok { s with level := l.push ⟨s.level.height + 1, true⟩, outer }

def repeatLast (s : Syntax) : Except Stop Syntax :=
  match s.level.parts with
  | p :: parts =>
    if p.repeatable then
      .ok { s with level := { s.level with parts := ⟨p.height + 1, true⟩ :: parts } }
    else .error .refused
  | [] => .error .refused

/-- Drops the question mark that makes a repetition take as little as it can. -/
def dropLazy : List Char → List Char
  | '?' :: rest => rest
  | rest => rest

def readCounts (free : Bool) (text : List Char) : Except Stop (List Char) := do
  let (low, rest) ← readCount free (settle free text)
  let close (rest : List Char) : Except Stop (List Char) :=
    match rest with
    | '\x7d' :: _ => .ok (dropLazy (advance free rest))
    | _ => .error .refused
  match low, rest with
  | none, _ => throw .refused
  | some low, ',' :: _ =>
    let rest := advance free rest
    match rest with
    | '\x7d' :: _ => close rest
    | _ =>
      let (high, rest) ← readCount free rest
      if (high.any (low ≤ ·)) then close rest else throw .refused
  | some _, rest => close rest

def readNext (s : Syntax) (c : Char) (rest : List Char) : Except Stop (Syntax × List Char) :=
  let free := s.level.free
  let pushed (s : Syntax) : Syntax := { s with level := s.level.push ⟨0, true⟩ }
  match c with
  | '(' => openGroup s rest
  | ')' => (closeGroup s).map fun s => (s, rest)
  | '|' =>
    let l := s.level
    .ok ({ s with level := { l with parts := [], branches := l.branchHeight :: l.branches } }, rest)
  | '[' => do
    let rest ← readWholeClass free (c :: rest)
    return ({ s with level := s.level.push ⟨1, true⟩ }, rest)
  | '?' | '*' | '+' => (repeatLast s).map fun s => (s, dropLazy rest)
  | '\x7b' => do
    let s ← repeatLast s
    return (s, ← readCounts free rest)
  | '\\' => do
    let (item, rest) ← readEscape free rest
    return (pushed { s with bell := s.bell || item = .bell }, rest)
  | _ => .ok (pushed s, rest)

def readAll : Nat → Syntax → List Char → Except Stop Syntax
  | 0, _, _ => .error .refused
  | fuel + 1, s, text =>
    match settle s.level.free text with
    | [] => .ok s
    | c :: rest => do
      let (s, rest) ← readNext s c rest
      readAll fuel s rest

/-- Reads a whole expression: all groups are closed, and it does not nest too
deep. -/
def readExpression (text : List Char) : Except Stop Unit := do
  let s ← readAll (text.length + 1) {} text
  if s.outer.isEmpty ∧ !s.bell ∧ s.level.height ≤ maxHeight then return else throw .refused

/-- A text in which the escapes of control characters are those characters, or
`none` where it is no expression. Escapes behind a reference back or a
look-around stay. -/
def withControls? : Nat → List Char → Option (List Char)
  | 0, _ => none
  | fuel + 1, text =>
    match readExpression text with
    | .ok () | .error .beyond => some text
    | .error .refused => none
    | .error (.control rest) =>
      match rest with
      | letter :: after =>
        if letter.isAlpha then
          let before := text.take (text.length - rest.length - 2)
          withControls? fuel (before ++ Char.ofNat (letter.toNat % 32) :: after)
        else none
      | [] => none

/-- The text of an expression with its control characters. -/
def expression? (text : String) : Option (List Char) :=
  withControls? (text.length + 1) text.toList

end FormTree.Pattern
