import FormTree.Path

/-!
The widget tree of a form. A node of the tree is a widget with the nodes it
holds; a child is found by the last segment of its path.
-/

namespace FormTree

namespace Widget

inductive Kind where
  | textfield
  | email
  | number
  | integer
  | checkbox
  | radios
  | checkboxes
  | repeatable
  | group
  | markup
  | removableItem
  | addControl
  | removeControl
  | unresolved
  | custom (name : String)
deriving DecidableEq, Repr

namespace Kind

def isControl : Kind → Bool
  | .addControl | .removeControl => true
  | _ => false

/-- A widget that never holds a submitted value. -/
def isStructural : Kind → Bool
  | .addControl | .removeControl | .removableItem => true
  | _ => false

def isCustom : Kind → Bool
  | .custom _ => true
  | _ => false

end Kind

/-- How many items a repeated field may have, with the highest index in use. -/
structure Cardinality where
  maxIndex : Option Nat
  unlimited : Bool
deriving DecidableEq, Repr

end Widget

/-- A widget without the ones it holds. -/
structure Widget where
  name : String
  path : Path
  propPath : Path
  kind : Widget.Kind
  title : String
  description : Option String := none
  placeholder : Option String := none
  defaultValue : Option Json := none
  required : Bool := false
  enabled : Bool := true
  visible : Bool := true
  options : List (String × String) := []
  markup : Option String := none
  cardinality : Option Widget.Cardinality := none
  delta : Option Nat := none
  errors : List String := []
deriving DecidableEq, Repr

inductive WidgetTree where
  | node (widget : Widget) (children : List WidgetTree)
deriving Repr

namespace WidgetTree

def widget : WidgetTree → Widget
  | .node w _ => w

def children : WidgetTree → List WidgetTree
  | .node _ cs => cs

def path (t : WidgetTree) : Path := t.widget.path

mutual

def decEq : (a b : WidgetTree) → Decidable (a = b)
  | .node v as, .node w bs =>
    have := decEqAll as bs
    decidable_of_iff (v = w ∧ as = bs) (by simp)

def decEqAll : (a b : List WidgetTree) → Decidable (a = b)
  | [], [] => isTrue rfl
  | [], _ :: _ | _ :: _, [] => isFalse (by simp)
  | a :: as, b :: bs =>
    have := decEq a b
    have := decEqAll as bs
    decidable_of_iff (a = b ∧ as = bs) (by simp)

end

instance : DecidableEq WidgetTree := decEq

/-- The tree is held under this segment. -/
def endsIn (s : Segment) (t : WidgetTree) : Bool := t.path.getLast? == some s

def child? (t : WidgetTree) (s : Segment) : Option WidgetTree := t.children.find? (endsIn s)

def descend? : Path → WidgetTree → Option WidgetTree
  | [], t => some t
  | s :: rest, t => (t.child? s).bind (descend? rest)

def find? (t : WidgetTree) (p : Path) : Option WidgetTree :=
  (p.below? t.path).bind fun rest => descend? rest t

def mapFirst {α : Type} (cond : α → Bool) (f : α → α) : List α → List α
  | [] => []
  | a :: rest => if cond a then f a :: rest else a :: mapFirst cond f rest

/-- Changes the widget that segments lead to. -/
def updateBelow (f : Widget → Widget) : Path → WidgetTree → WidgetTree
  | [], .node w cs => .node (f w) cs
  | s :: rest, .node w cs => .node w (mapFirst (endsIn s) (updateBelow f rest) cs)

/-- Changes the widget at a full path; nothing where there is none. -/
def update (f : Widget → Widget) (p : Path) (t : WidgetTree) : WidgetTree :=
  match p.below? t.path with
  | some rest => updateBelow f rest t
  | none => t

mutual

/-- The node and all below it, each before the ones it holds. -/
def nodes : WidgetTree → List WidgetTree
  | .node w cs => .node w cs :: nodesOf cs

def nodesOf : List WidgetTree → List WidgetTree
  | [] => []
  | t :: rest => nodes t ++ nodesOf rest

end

/-- The number of widgets below the root that can hold a value. -/
def fieldCount (t : WidgetTree) : Nat :=
  (nodesOf t.children).countP fun n => !n.widget.kind.isStructural

def hasErrors (t : WidgetTree) : Bool := t.nodes.any fun n => !n.widget.errors.isEmpty

def withError (message : String) : WidgetTree → WidgetTree
  | .node w cs => .node { w with errors := w.errors ++ [message] } cs

/-- Adds a message to the widget at a full path. -/
def addError (p : Path) (message : String) (t : WidgetTree) : WidgetTree :=
  t.update (fun w => { w with errors := w.errors ++ [message] }) p

end WidgetTree
end FormTree
