import FormTree.Binary64

/-!
Decimal numerals `[+-]digits[.digits][e[+-]digits]`: their parts, the exact
decimal they denote, and the two ways of taking them to binary64, the nearest
number and the scaled one.
-/

namespace FormTree

structure Numeral where
  sign : Option Char
  whole : List Char
  fraction : Option (List Char)
  exponent : Option (Option Char × List Char)
deriving DecidableEq, Repr

namespace Numeral

def digit (c : Char) : Nat := c.toNat - '0'.toNat

def appendDigits (n : Nat) (digits : List Char) : Nat :=
  digits.foldl (fun m c => 10 * m + digit c) n

def splitSign : List Char → Option Char × List Char
  | '+' :: rest => (some '+', rest)
  | '-' :: rest => (some '-', rest)
  | rest => (none, rest)

def splitFraction : List Char → Option (List Char) × List Char
  | '.' :: rest => (some (rest.takeWhile Char.isDigit), rest.dropWhile Char.isDigit)
  | rest => (none, rest)

/-- The exponent that a text consists of: `none` inside where the text is
empty, `none` outside where it is no exponent. -/
def readExponent? : List Char → Option (Option (Option Char × List Char))
  | [] => some none
  | c :: rest =>
    let s := splitSign rest
    if (c = 'e' ∨ c = 'E') ∧ s.2 ≠ [] ∧ s.2.all Char.isDigit then some (some s) else none

/-- Reads a whole text as a numeral; there must be a digit before the
exponent, on either side of the point. -/
def read? (text : List Char) : Option Numeral :=
  let (sign, body) := splitSign text
  let whole := body.takeWhile Char.isDigit
  let (fraction, rest) := splitFraction (body.dropWhile Char.isDigit)
  if whole = [] ∧ fraction.getD [] = [] then none
  else (readExponent? rest).map fun exponent => ⟨sign, whole, fraction, exponent⟩

def negative (n : Numeral) : Bool := n.sign == some '-'

def isWhole (n : Numeral) : Bool := n.fraction.isNone && n.exponent.isNone

/-- The integer that the sign and the digits before the point denote. -/
def wholeValue (n : Numeral) : Int :=
  let m : Int := (appendDigits 0 n.whole : Nat)
  if n.negative then -m else m

def writtenExponent (n : Numeral) : Int :=
  match n.exponent with
  | none => 0
  | some (sign, digits) =>
    let m : Int := (appendDigits 0 digits : Nat)
    if sign = some '-' then -m else m

/-- All digits as one number, to be scaled by `10 ^ scale`. -/
def significand (n : Numeral) : Nat :=
  appendDigits (appendDigits 0 n.whole) (n.fraction.getD [])

def scale (n : Numeral) : Int :=
  n.writtenExponent - ((n.fraction.getD []).length : Int)

end Numeral

namespace Binary64

/-- The number nearest to `digits · 10^exponent`, where `digits` has at most
`count` decimal digits. Exponents that cannot matter are decided without
forming the power. -/
def ofDecimal (negative : Bool) (digits count : Nat) (exponent : Int) : Option Binary64 :=
  if digits = 0 then some (zero negative)
  else if 400 < exponent then none
  else if exponent + count < -400 then some (zero negative)
  else if 0 ≤ exponent then ofRatio negative (digits * Nat.pow 10 exponent.toNat) 1
  else ofRatio negative digits (Nat.pow 10 (-exponent).toNat)

/-- The number nearest to `10^k`, for `k ≤ 308`. -/
def powerOfTen (k : Nat) : Binary64 := (ofRatio false (Nat.pow 10 k) 1).getD (zero false)

/-- A significand below `2^64` and a power of ten, taken to binary64 one at a
time: the significand is rounded, then multiplied or divided by the rounded
power. Below `10^-308` the division is done in two steps. -/
def ofScaled (negative : Bool) (significand : Nat) (exponent : Int) : Option Binary64 :=
  let f := ofInt significand
  let signed (x : Binary64) : Binary64 := { x with negative := negative }
  if f.isZero then some (zero negative)
  else if 308 < exponent then none
  else if 0 ≤ exponent then (f.mul? (powerOfTen exponent.toNat)).map signed
  else if -308 ≤ exponent then (f.div? (powerOfTen (-exponent).toNat)).map signed
  else if -616 ≤ exponent then
    (f.div? (powerOfTen 308)).bind fun g =>
      (g.div? (powerOfTen (-exponent - 308).toNat)).map signed
  else some (zero negative)

end Binary64

namespace Numeral

/-- The binary64 number nearest to the numeral; `none` beyond the finite
ones. -/
def nearest? (n : Numeral) : Option Binary64 :=
  Binary64.ofDecimal n.negative n.significand
    (n.whole.length + (n.fraction.getD []).length) n.scale

/-- The greatest value of a 64-bit word. -/
def maxWord : Nat := UInt64.size - 1

/-- Digits appended to a number while it fits a 64-bit word, with the digits
left over from the first that does not fit. -/
def appendFitting (n : Nat) : List Char → Nat × List Char
  | [] => (n, [])
  | c :: rest =>
    if 10 * n + digit c ≤ maxWord then appendFitting (10 * n + digit c) rest
    else (n, c :: rest)

/-- The binary64 number of the leading digits that fit a 64-bit word, scaled by
the power of ten that the other digits before the point, the digits taken after
it and the exponent make up. -/
def scaled? (n : Numeral) : Option Binary64 :=
  let fraction := n.fraction.getD []
  let (m, left) := appendFitting 0 n.whole
  let (m, left') := appendFitting m fraction
  let taken := fraction.length - left'.length
  Binary64.ofScaled n.negative m (n.writtenExponent + left.length - taken)

end Numeral
end FormTree
