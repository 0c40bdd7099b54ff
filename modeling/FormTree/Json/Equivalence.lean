import FormTree.Binary64.Shortest
import FormTree.Json

/-!
Values compared by what they denote: numbers by their exact value, whichever
way they are written, and objects member by member in their order. Beside that
stand a closeness of numbers, a strict sameness of values, and division in
binary64.
-/

namespace FormTree

namespace Binary64

/-- The exact value as a signed numerator over a denominator. -/
def fraction (x : Binary64) : Int × Nat :=
  let n : Int := (x.ratio.1 : Nat)
  (if x.negative then -n else n, x.ratio.2)

end Binary64

namespace Number

def fraction : Number → Int × Nat
  | .int n => (n, 1)
  | .float x => x.fraction

def order (a b : Number) : Ordering :=
  compare (a.fraction.1 * b.fraction.2) (b.fraction.1 * a.fraction.2)

def lessThan (a b : Number) : Bool := order a b == .lt

def toBinary64 : Number → Binary64
  | .int n => .ofInt n
  | .float x => x

def isWhole : Number → Bool
  | .int _ => true
  | .float x => x.toInt?.isSome

/-- The numbers, each taken to binary64, differ by less than `2^-52` once the
difference is rounded. -/
def isClose (a b : Number) : Bool :=
  let x := a.toBinary64.fraction
  let y := b.toBinary64.fraction
  let gap := (x.1 * y.2 - y.1 * x.2).natAbs
  match Binary64.ofRatio false gap (x.2 * y.2) with
  | some d => d.ratio.1 <<< 52 < d.ratio.2
  | none => false

/-- A decimal is a whole number of times a divisor other than zero. -/
def isMultipleOfDecimal (value divisor : Decimal) : Bool :=
  let power := value.exponent - divisor.exponent
  if 0 ≤ power then value.digits * Nat.pow 10 power.toNat % divisor.digits == 0
  else value.digits % (divisor.digits * Nat.pow 10 (-power).toNat) == 0

/-- A quotient is taken for whole: the part of it after the point is below
`2^-52`, as it always is for a negative one. -/
def isNearlyWhole (x : Binary64) : Bool :=
  x.negative || (x.ratio.1 % x.ratio.2) <<< 52 < x.ratio.2

/-- Whether a number is a multiple of another, both taken to binary64. By a
whole divisor the division is exact. By any other it is the rounded quotient
that counts, and where that is beyond the finite numbers, the shortest decimals
are divided. -/
def isMultipleOf (value divisor : Number) : Bool :=
  let x := value.toBinary64
  let y := divisor.toBinary64
  match y.toInt? with
  | some n => x.toInt?.any fun m => m % n == 0
  | none =>
    match x.div? y with
    | some q => isNearlyWhole q
    | none => isMultipleOfDecimal x.shortest y.shortest

end Number

namespace Json

mutual

/-- Equality of values in the sense of JSON Schema. -/
def equiv : Json → Json → Bool
  | .null, .null => true
  | .bool a, .bool b => a == b
  | .number a, .number b => Number.order a b == .eq
  | .string a, .string b => a == b
  | .array a, .array b => equivItems a b
  | .object a, .object b => equivMembers a b
  | _, _ => false

def equivItems : List Json → List Json → Bool
  | [], [] => true
  | a :: as, b :: bs => equiv a b && equivItems as bs
  | _, _ => false

/-- Members are compared one by one, so their order counts. -/
def equivMembers : List (String × Json) → List (String × Json) → Bool
  | [], [] => true
  | (key, a) :: as, (other, b) :: bs => key == other && equiv a b && equivMembers as bs
  | _, _ => false

end

/-- A value is the constant that a schema names. Numbers only need to be
close, unless they stand inside an array or object. -/
def isConstant (constant v : Json) : Bool :=
  match constant, v with
  | .number a, .number b => a.isClose b
  | constant, v => v.equiv constant

mutual

/-- Sameness of values, where a number written as an integer differs from one
of binary64 and the order of members does not count. -/
def same : Json → Json → Bool
  | .array a, .array b => sameItems a b
  | .object a, .object b => a.length == b.length && sameMembers a b
  | a, b => a == b

def sameItems : List Json → List Json → Bool
  | [], [] => true
  | a :: as, b :: bs => same a b && sameItems as bs
  | _, _ => false

def sameMembers : List (String × Json) → List (String × Json) → Bool
  | [], _ => true
  | (key, a) :: rest, members => (members.lookup key).any (same a) && sameMembers rest members

end

def noneRelated (r : Json → Json → Bool) : List Json → Bool
  | [] => true
  | v :: rest => !rest.any (r v) && noneRelated r rest

/-- The most items that are compared by what they denote. -/
def comparedItems : Nat := 15

/-- No two items are equal. In a long list only sameness counts. -/
def allDistinct (items : List Json) : Bool :=
  noneRelated (if items.length ≤ comparedItems then equiv else same) items

end Json
end FormTree
