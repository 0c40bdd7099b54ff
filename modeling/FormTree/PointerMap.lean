import FormTree.Json.Pointer
import FormTree.SortedMap
import FormTree.Widget

/-!
The map between pointers into the cleaned document and paths of the widget
tree. Wrappers have no token in a pointer, and the items of a repeated field
count by their place, as they do in the document. Where a wrapper and its
element share a pointer, the element has it.
-/

namespace FormTree

structure PointerMap where
  byPointer : SortedMap String Path
  byPath : SortedMap Path String

namespace PointerMap

def empty : PointerMap := ⟨SortedMap.empty, SortedMap.empty⟩

/-- Enters a pointer with its path, in the place of an earlier path. -/
def record (m : PointerMap) (pointer : String) (p : Path) : PointerMap :=
  let byPath :=
    match m.byPointer.find? pointer with
    | some previous => m.byPath.erase previous
    | none => m.byPath
  ⟨m.byPointer.insert pointer p, byPath.insert p pointer⟩

/-- The token of a child, given how many items stand before it. A child under
an index is an item only where the parent is a repeated field. -/
def token? (parent : Widget.Kind) (place : Nat) (child : Widget) : Option String :=
  match child.path.getLast? with
  | some (.index i) => some (toString (if parent = .repeatable then place else i))
  | some (.property name) => some name
  | some .wrapper | some (.control _) | none => none

/-- The child is an item of a repeated field. -/
def countsAsItem (parent : Widget.Kind) (child : Widget) : Bool :=
  decide (parent = .repeatable) &&
    match child.path.getLast? with
    | some (.index _) => true
    | _ => false

mutual

/-- The pointers of a tree with their paths, in the order of entry. Controls
and what is below them have none. -/
def pairs (tokens : List String) : WidgetTree → List (String × Path)
  | .node w cs => (Pointer.join tokens, w.path) :: pairsOf tokens w.kind 0 cs

def pairsOf (tokens : List String) (parent : Widget.Kind) (place : Nat) :
    List WidgetTree → List (String × Path)
  | [] => []
  | .node w cs :: rest =>
    if w.kind.isControl then pairsOf tokens parent place rest
    else
      let below := tokens ++ (token? parent place w).toList
      pairs below (.node w cs) ++
        pairsOf tokens parent (if countsAsItem parent w then place + 1 else place) rest

end

/-- The map of a tree, with pointers relative to `root`. -/
def ofTree (t : WidgetTree) (root : Path) : PointerMap :=
  let tokens := (((t.path.below? root).getD []).withoutSynthetic).map Segment.key
  (pairs tokens t).foldl (fun m e => m.record e.1 e.2) empty

/-- The path of a pointer, which may begin with the mark of a fragment. -/
def path? (m : PointerMap) (pointer : String) : Option Path :=
  m.byPointer.find?
    (match pointer.toList with
    | '#' :: rest => String.ofList rest
    | _ => pointer)

def pointer? (m : PointerMap) (p : Path) : Option String := m.byPath.find? p

def entries (m : PointerMap) : List (String × Path) := m.byPointer.entries

def size (m : PointerMap) : Nat := m.byPointer.size

end PointerMap
end FormTree
