import FormTree.Binary64

/-!
The shortest decimal of a binary64 number: the fewest digits that round to the
number, and of those the nearest to it. Two texts are written from it, one with
a point or an exponent always present and one that is positional throughout.
-/

namespace FormTree

/-- The decimal `digits · 10^exponent`. -/
structure Decimal where
  digits : Nat
  exponent : Int
deriving DecidableEq, Repr, Inhabited

namespace Decimal

def digitChars (n : Nat) : List Char := Nat.toDigits 10 n

def leBinary (a : Nat) (k : Int) (b : Nat) (q : Int) : Bool :=
  (a * Nat.pow 10 k.toNat) <<< (-q).toNat ≤ (b * Nat.pow 10 (-k).toNat) <<< q.toNat

def geBinary (a : Nat) (k : Int) (b : Nat) (q : Int) : Bool :=
  (b * Nat.pow 10 (-k).toNat) <<< q.toNat ≤ (a * Nat.pow 10 k.toNat) <<< (-q).toNat

/-- Trailing zeros moved into the exponent; a number has at most as many of
them as it has digits. -/
def normalize (d : Decimal) : Decimal :=
  let zeros := ((digitChars d.digits).reverse.takeWhile (· == '0')).length
  if d.digits = 0 then ⟨0, 0⟩ else ⟨d.digits / Nat.pow 10 zeros, d.exponent + zeros⟩

end Decimal

namespace Binary64

/-- The magnitude and the ends of the interval of reals that round to the
number, as multiples of `2^(exponent - 2)`. -/
def interval (x : Binary64) : Nat × Nat × Nat :=
  let v := 4 * x.mantissa
  let narrow := x.mantissa = 1 <<< 52 ∧ minExponent < x.exponent
  (if narrow then v - 1 else v - 2, v, v + 2)

/-- The decimal `c · 10^k` rounds to the magnitude of the number. The ends of
the interval belong to it when the significand is even. -/
def roundsFrom (x : Binary64) (c : Nat) (k : Int) : Bool :=
  let (low, _, high) := x.interval
  let q := x.exponent - 2
  if x.mantissa % 2 = 0 then Decimal.geBinary c k low q && Decimal.leBinary c k high q
  else !Decimal.leBinary c k low q && !Decimal.geBinary c k high q

/-- The number `d` with `10^(d-1) ≤ |x| < 10^d`, for `x` other than zero. -/
def decimalLength (x : Binary64) : Int :=
  let (num, den) := x.ratio
  if den ≤ num then ((Decimal.digitChars (num / den)).length : Int)
  else 1 - ((Decimal.digitChars ((den + num - 1) / num - 1)).length : Int)

/-- The multiple of `10^k` next to the number that rounds to it, if there is
one. Of two the nearer is taken, and of two equally near the even one. -/
def neighbour? (x : Binary64) (k : Int) : Option Nat :=
  let (num, den) := x.ratio
  let num := num * Nat.pow 10 (-k).toNat
  let den := den * Nat.pow 10 k.toNat
  let below := num / den
  match x.roundsFrom below k, x.roundsFrom (below + 1) k with
  | true, true => some (roundDiv num den)
  | true, false => some below
  | false, true => some (below + 1)
  | false, false => none

/-- The shortest decimal that rounds to the magnitude of the number. Seventeen
digits always suffice. -/
def shortest (x : Binary64) : Decimal :=
  if x.isZero then ⟨0, 0⟩
  else
    let length := x.decimalLength
    let found := (List.range 17).findSome? fun (i : Nat) =>
      let k := length - ((i : Int) + 1)
      (x.neighbour? k).map fun c => Decimal.normalize ⟨c, k⟩
    found.getD ⟨0, 0⟩

def signText (x : Binary64) : List Char := if x.negative then ['-'] else []

/-- Digits and exponent written without an exponent; `tail` follows a number
that has no fraction. -/
def positional (d : Decimal) (tail : List Char) : List Char :=
  let digits := Decimal.digitChars d.digits
  if 0 ≤ d.exponent then digits ++ List.replicate d.exponent.toNat '0' ++ tail
  else
    let places := (-d.exponent).toNat
    if places < digits.length then
      digits.take (digits.length - places) ++ '.' :: digits.drop (digits.length - places)
    else '0' :: '.' :: List.replicate (places - digits.length) '0' ++ digits

def scientific (d : Decimal) : List Char :=
  let digits := Decimal.digitChars d.digits
  let power := d.exponent + ((digits.length : Int) - 1)
  let tail := if digits.length = 1 then [] else '.' :: digits.drop 1
  let sign := if power < 0 then '-' else '+'
  digits.take 1 ++ tail ++ 'e' :: sign :: Decimal.digitChars power.natAbs

/-- The text of the number: positional from `10^-5` up to `10^16`, where a
whole number ends in `.0`, and with an exponent elsewhere. -/
def toText (x : Binary64) : String :=
  let d := x.shortest
  let power := d.exponent + (((Decimal.digitChars d.digits).length : Int) - 1)
  let body :=
    if x.isZero ∨ (-5 ≤ power ∧ power < 16) then positional d ['.', '0'] else scientific d
  String.ofList (x.signText ++ body)

/-- The text of the number without an exponent, and without a point where it
is whole. -/
def toPlainText (x : Binary64) : String :=
  String.ofList (x.signText ++ positional x.shortest [])

end Binary64
end FormTree
