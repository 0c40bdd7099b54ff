import FormTree.Path

/-!
The items of one repeated field. Each item has an index of its own for good:
indices ascend, and one that was given away is not given again, because new
ones start at a mark that only rises.
-/

namespace FormTree

structure LiveItems where
  indices : List Nat
  nextIndex : Nat
  location : Path
deriving DecidableEq, Repr, Inhabited

namespace LiveItems

def empty : LiveItems := ⟨[], 0, []⟩

/-- A field with the items `0 … count - 1`. -/
def ofCount (count : Nat) (location : Path) : LiveItems := ⟨List.range count, count, location⟩

def max? (s : LiveItems) : Option Nat := s.indices.getLast?

/-- The place where halving the `size` places from `base` on ends: the last
one whose number does not exceed `i`, in an ascending list. -/
def searchFrom (indices : List Nat) (i base size : Nat) : Nat :=
  if 1 < size then
    let mid := base + size / 2
    searchFrom indices i (if i < indices.getD mid 0 then base else mid) (size - size / 2)
  else base
termination_by size
decreasing_by omega

/-- The place of an index in a list searched by halving. -/
def search? (indices : List Nat) (i : Nat) : Option Nat :=
  let place := searchFrom indices i 0 indices.length
  if indices[place]? = some i then some place else none

def contains (s : LiveItems) (i : Nat) : Bool := (search? s.indices i).isSome

/-- The least index above the ones in use, if there is one. -/
def floor? (s : LiveItems) : Option Nat :=
  match s.max? with
  | none => some 0
  | some m => if m < maxIndex then some (m + 1) else none

/-- Gives away a new index, unless none is left. -/
def add (s : LiveItems) : Option Nat × LiveItems :=
  match s.floor? with
  | none => (none, s)
  | some floor =>
    let i := max floor s.nextIndex
    if i < maxIndex then (some i, { s with indices := s.indices ++ [i], nextIndex := i + 1 })
    else (none, s)

/-- An addition that gives an index away, with what it leaves. -/
def add? (s : LiveItems) : Option (Nat × LiveItems) := s.add.1.map (·, s.add.2)

/-- Takes an item out; `none` where it is not in use. -/
def remove? (s : LiveItems) (i : Nat) : Option LiveItems :=
  (search? s.indices i).map fun place => { s with indices := s.indices.eraseIdx place }

/-- Brings a stored record in order: indices ascend, each once and below the
greatest number, and the mark is above all of them. -/
def normalized (s : LiveItems) : LiveItems :=
  let indices :=
    ((s.indices.filter fun i => decide (i < maxIndex)).eraseDups).mergeSort
      fun a b => decide (a ≤ b)
  { s with
    indices
    nextIndex := max s.nextIndex ((indices.getLast?.map (· + 1)).getD 0) }

end LiveItems
end FormTree
