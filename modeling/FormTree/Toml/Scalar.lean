import FormTree.Json.Reader

/-!
The values of TOML that are written as bare words: flags, numbers, and dates
and times. They are given as JSON values.
-/

namespace FormTree.Toml.Scalar

/-- Digits without the underscores between them. -/
def ungroup? (isDigit : Char → Bool) : List Char → Option (List Char)
  | [] => none
  | [c] => if isDigit c then some [c] else none
  | c :: '_' :: rest => if isDigit c then (ungroup? isDigit rest).map (c :: ·) else none
  | c :: rest => if isDigit c then (ungroup? isDigit rest).map (c :: ·) else none

/-- The digits of a whole number, which has no leading zero. -/
def whole? (chars : List Char) : Option (List Char) :=
  (ungroup? Char.isDigit chars).filter fun ds => ds.length = 1 ∨ ds.head? ≠ some '0'

/-- Integers that need more than 128 bits are not read. -/
def bounded? (n : Int) : Option Json :=
  if -(1 <<< 127 : Int) ≤ n ∧ n < (1 <<< 128 : Int) then some (.number (.int n)) else none

def base? (c : Char) : Option Nat :=
  match c with
  | 'x' => some 16
  | 'o' => some 8
  | 'b' => some 2
  | _ => none

/-- A number in another base, without a sign. -/
def based? (chars : List Char) : Option Json :=
  match chars with
  | '0' :: c :: rest =>
    (base? c).bind fun base =>
      let isDigit (c : Char) : Bool := (Json.Reader.hexValue? c).any (· < base)
      (ungroup? isDigit rest).bind fun ds =>
        let value := ds.foldl (fun n c => base * n + (Json.Reader.hexValue? c).getD 0) 0
        bounded? (value : Nat)
  | _ => none

/-- The exponent at the end of a float; `none` inside where the text is empty. -/
def exponent? : List Char → Option (Option (Option Char × List Char))
  | [] => some none
  | c :: rest =>
    if c = 'e' ∨ c = 'E' then
      let (sign, digits) := Numeral.splitSign rest
      (ungroup? Char.isDigit digits).map fun ds => some (sign, ds)
    else none

def isExponentMark (c : Char) : Bool := c == 'e' || c == 'E'

/-- The fraction after a point, and what follows it. -/
def fraction? : List Char → Option (Option (List Char) × List Char)
  | '.' :: rest =>
    (ungroup? Char.isDigit (rest.takeWhile (!isExponentMark ·))).map fun ds =>
      (some ds, rest.dropWhile (!isExponentMark ·))
  | rest => some (none, rest)

def decimal? (chars : List Char) : Option Json := do
  let (sign, body) := Numeral.splitSign chars
  let isWhole (c : Char) : Bool := c != '.' && !isExponentMark c
  let whole ← whole? (body.takeWhile isWhole)
  let (fraction, rest) ← fraction? (body.dropWhile isWhole)
  let exponent ← exponent? rest
  let n : Numeral := ⟨sign, whole, fraction, exponent⟩
  if n.isWhole then bounded? n.wholeValue else n.nearest?.map fun x => .number (.float x)

/-- Infinity and the values that are no number. JSON has no number for them, and
the greatest finite one stands in their place. -/
def nonFinite? (chars : List Char) : Option Json :=
  let (sign, body) := Numeral.splitSign chars
  if body = "inf".toList ∨ body = "nan".toList then
    some (.number (.float ⟨sign == some '-', (1 <<< 53) - 1, Binary64.maxExponent⟩))
  else none

def two? (a b : Char) : Option Nat :=
  if a.isDigit ∧ b.isDigit then some (Numeral.appendDigits 0 [a, b]) else none

def daysIn (year month : Nat) : Nat :=
  if month = 2 then
    if year % 4 = 0 ∧ (year % 100 ≠ 0 ∨ year % 400 = 0) then 29 else 28
  else if month ∈ [4, 6, 9, 11] then 30
  else 31

/-- What follows a date at the beginning of a text. -/
def afterDate? : List Char → Option (List Char)
  | a :: b :: c :: d :: '-' :: e :: f :: '-' :: g :: h :: rest => do
    let century ← two? a b
    let year ← two? c d
    let month ← two? e f
    let day ← two? g h
    if 1 ≤ month ∧ month ≤ 12 ∧ 1 ≤ day ∧ day ≤ daysIn (100 * century + year) month then some rest
    else none
  | _ => none

def afterSeconds? : List Char → Option (List Char)
  | ':' :: a :: b :: rest => do
    let second ← two? a b
    if 60 < second then none
    else
      match rest with
      | '.' :: c :: rest => if c.isDigit then some (rest.dropWhile Char.isDigit) else none
      | ['.'] => none
      | rest => some rest
  | ':' :: _ => none
  | rest => some rest

def afterMinutes? : List Char → Option (List Char)
  | a :: b :: ':' :: c :: d :: rest => do
    let hour ← two? a b
    let minute ← two? c d
    if hour ≤ 23 ∧ minute ≤ 59 then some rest else none
  | _ => none

def afterTime? (chars : List Char) : Option (List Char) := (afterMinutes? chars).bind afterSeconds?

/-- An offset from universal time, or nothing. -/
def isOffset (chars : List Char) : Bool :=
  match chars with
  | [] | ['Z'] | ['z'] => true
  | c :: rest => (c == '+' || c == '-') && afterMinutes? rest == some []

/-- A date, a time, or both with or without an offset. -/
def isMoment (chars : List Char) : Bool :=
  afterTime? chars == some [] ||
    match afterDate? chars with
    | none => false
    | some [] => true
    | some (c :: rest) => (c == 'T' || c == 't' || c == ' ') && (afterTime? rest).any isOffset

/-- Whether a word is a date, after which a time may follow. -/
def isDate (chars : List Char) : Bool := afterDate? chars == some []

/-- The key under which the text of a date or time stands. -/
def momentKey : String := "moment"

def read? (chars : List Char) : Option Json :=
  if chars = "true".toList then some (.bool true)
  else if chars = "false".toList then some (.bool false)
  else if isMoment chars then some (.object [(momentKey, .string (String.ofList chars))])
  else based? chars <|> decimal? chars <|> nonFinite? chars

end FormTree.Toml.Scalar
