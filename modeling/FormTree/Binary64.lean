/-!
Finite binary64 numbers as exact values `±m · 2^e`. Every number has one
representation, so equality of the data is equality of the numbers up to the
sign of zero. Rounding is to nearest with ties to the even significand, in
integer arithmetic throughout.
-/

namespace FormTree

/-- A finite number of the binary64 format: `mantissa < 2^53`, and the exponent
is the least one in `-1074 … 971` that leaves no room for a further bit. -/
structure Binary64 where
  negative : Bool
  mantissa : Nat
  exponent : Int
deriving DecidableEq, Repr, Inhabited

namespace Binary64

def minExponent : Int := -1074

def maxExponent : Int := 971

def zero (negative : Bool) : Binary64 := ⟨negative, 0, minExponent⟩

def isZero (x : Binary64) : Bool := x.mantissa == 0

/-- The nearest integer to `num / den`, a tie going to the even one. -/
def roundDiv (num den : Nat) : Nat :=
  let q := num / den
  let twice := 2 * (num % den)
  if twice < den then q
  else if den < twice then q + 1
  else q + q % 2

/-- `num / den` over `2^e` as a quotient of naturals. -/
def scaled (num den : Nat) (e : Int) : Nat × Nat :=
  if 0 ≤ e then (num, den <<< e.toNat) else (num <<< (-e).toNat, den)

/-- The exponent at which `num / den` has a significand of 53 bits, raised to
the least exponent where that is too small. -/
def exponentFor (num den : Nat) : Int :=
  let e : Int := max ((num.log2 : Int) - (den.log2 : Int) - 53) minExponent
  let s := scaled num den e
  if s.1 / s.2 < 1 <<< 53 then e else e + 1

/-- The number nearest to `num / den`; `none` where that is beyond the finite
ones. -/
def ofRatio (negative : Bool) (num den : Nat) : Option Binary64 :=
  if num = 0 then some (zero negative)
  else
    let e := exponentFor num den
    let s := scaled num den e
    let m := roundDiv s.1 s.2
    let x : Binary64 := if m < 1 <<< 53 then ⟨negative, m, e⟩ else ⟨negative, 1 <<< 52, e + 1⟩
    if x.exponent ≤ maxExponent then some x else none

def ratio (x : Binary64) : Nat × Nat := scaled x.mantissa 1 (-x.exponent)

def ofInt (n : Int) : Binary64 := (ofRatio (n < 0) n.natAbs 1).getD (zero false)

def mul? (x y : Binary64) : Option Binary64 :=
  ofRatio (x.negative != y.negative) (x.ratio.1 * y.ratio.1) (x.ratio.2 * y.ratio.2)

def div? (x y : Binary64) : Option Binary64 :=
  ofRatio (x.negative != y.negative) (x.ratio.1 * y.ratio.2) (x.ratio.2 * y.ratio.1)

def toInt? (x : Binary64) : Option Int :=
  let r := x.ratio
  if r.1 % r.2 = 0 then
    let n : Int := ((r.1 / r.2 : Nat) : Int)
    some (if x.negative then -n else n)
  else none

end Binary64
end FormTree
