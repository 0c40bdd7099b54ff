import FormTree.Json.Pointer

/-!
Paths through a form. A segment names a property, an item of a repeated field,
or one of the nodes that exist only in the widget tree: the wrapper around a
removable item and the two controls. Those are called synthetic; they have no
place in a document.
-/

namespace FormTree

/-- The greatest number that can be an index is one below `2^64`. -/
def maxIndex : Nat := UInt64.size - 1

inductive Control where
  | addMore
  | remove
deriving DecidableEq, Repr

namespace Control

def key : Control → String
  | .addMore => "add_more"
  | .remove => "remove_one"

end Control

inductive Segment where
  | property (name : String)
  | index (n : Nat)
  | wrapper
  | control (kind : Control)
deriving DecidableEq, Repr

namespace Segment

/-- The key under which the widget tree holds a wrapped item. -/
def wrapperKey : String := "removable_element"

def isSynthetic : Segment → Bool
  | .wrapper | .control _ => true
  | .property _ | .index _ => false

/-- The text of the segment, without escapes. -/
def key : Segment → String
  | .property name => name
  | .index n => toString n
  | .wrapper => wrapperKey
  | .control kind => kind.key

def rank : Segment → Nat
  | .property _ => 0
  | .index _ => 1
  | .wrapper => 2
  | .control .addMore => 3
  | .control .remove => 4

def name : Segment → String
  | .property name => name
  | _ => ""

def number : Segment → Nat
  | .index n => n
  | _ => 0

/-- Properties come first, by name; then indices, the wrapper, and the controls. -/
instance : Ord Segment where
  compare := compareLex (compareOn rank) (compareLex (compareOn name) (compareOn number))

instance : Std.TransOrd Segment :=
  inferInstanceAs
    (Std.TransCmp (compareLex (compareOn rank) (compareLex (compareOn name) (compareOn number))))

instance : Std.LawfulEqOrd Segment where
  compare_self := Std.ReflCmp.compare_self
  eq_of_compare {a b} h := by
    change compareLex (compareOn rank) (compareLex (compareOn name) (compareOn number)) a b = .eq
      at h
    simp only [compareLex_eq_eq, compareOn, Std.LawfulEqOrd.compare_eq_iff_eq] at h
    obtain ⟨hr, hn, hi⟩ := h
    rcases a with _ | _ | _ | _ | _ <;> rcases b with _ | _ | _ | _ | _ <;>
      simp_all [rank, name, number]

end Segment

/-- A path from the root of a form. -/
abbrev Path := List Segment

namespace Path

/-- The segment of a piece of text between slashes. Decimal digits are an index
where the index exists; any other text is a property name with escapes. -/
def segmentOf (piece : List Char) : Segment :=
  if piece.all Char.isDigit ∧ Nat.ofDigitChars 10 piece 0 ≤ maxIndex then
    .index (Nat.ofDigitChars 10 piece 0)
  else .property (String.ofList (Pointer.unescapeChars piece))

/-- Reads a path from text; empty pieces do not count. -/
def parse (text : String) : Path :=
  ((Pointer.pieces [] text.toList).filter (· ≠ [])).map segmentOf

/-- The keys after slashes, with escapes; the root is a single slash. -/
def toText (p : Path) : String :=
  if p.isEmpty then "/" else Pointer.join (p.map Segment.key)

/-- The path in the schema and in documents. -/
def withoutSynthetic (p : Path) : Path := p.filter fun s => !s.isSynthetic

/-- What follows `root` in a path that goes through it. -/
def below? (p root : Path) : Option Path := root.isPrefixOf? p

/-- The path of a field relative to the place where its form is mounted. -/
def relativeTo (root p : Path) : Path := ((p.below? root).getD p).withoutSynthetic

end Path
end FormTree
