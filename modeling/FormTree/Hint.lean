import FormTree.Json.Printer

/-!
Presentation hints for a form, nested like its schema. Keys that begin with
`ui:` speak about a node itself and every other key with an object under it
speaks about the child of that name. Entries of another form are ignored, so
anything can be read as hints.
-/

namespace FormTree

structure Hint where
  title : Option String := none
  help : Option String := none
  placeholder : Option String := none
  widget : Option String := none
  enabled : Option Bool := none
  visible : Option Bool := none
  enumLabels : List (String × String) := []
  children : List (String × Hint) := []
deriving Inhabited

namespace Hint

def empty : Hint := {}

def itemsKey : String := "items"

/-- A key that speaks about the node itself. -/
def isOwnKey (key : String) : Bool := "ui:".toList.isPrefixOf key.toList

def text? (v : Json) : Option String := v.string?.bind fun s => if s = "" then none else some s

/-- A flag. Zero, `null`, the empty text, `0` and `false` mean no, other
numbers and texts mean yes, and containers say nothing. -/
def flag? : Json → Option Bool
  | .null => some false
  | .bool b => some b
  | .number (.int n) => some (n != 0)
  | .number (.float x) => some !x.isZero
  | .string s => some !(s == "" || s == "0" || s == "false")
  | .array _ | .object _ => none

def labels (v : Json) : List (String × String) :=
  match (v.member? "labels").bind (·.member? "mappings") with
  | some (.object mappings) => mappings.map fun m => (m.1, m.2.displayText)
  | _ => []

mutual

def ofJson : Json → Hint
  | .object members => {
      title := (members.lookup "ui:title").bind text?
      help := (members.lookup "ui:help").bind text?
      placeholder := (members.lookup "ui:placeholder").bind text?
      widget := (members.lookup "ui:widget").bind text?
      enabled := (members.lookup "ui:enabled").bind flag?
      visible := (members.lookup "ui:visible").bind flag?
      enumLabels := ((members.lookup "ui:enum").map labels).getD []
      children := childrenOf members }
  | _ => {}

def childrenOf : List (String × Json) → List (String × Hint)
  | [] => []
  | (key, v) :: rest =>
    if isOwnKey key || !v.isObject then childrenOf rest
    else (key, ofJson v) :: childrenOf rest

end

/-- The hints for a child; none are the same as empty ones. -/
def child (h : Hint) (name : String) : Hint := (h.children.lookup name).getD {}

/-- The hints for every item of an array. Where the array has none for them,
its items are enabled and visible as it is. -/
def item (h : Hint) : Hint :=
  (h.children.lookup itemsKey).getD { enabled := h.enabled, visible := h.visible }

def labelFor? (h : Hint) (v : Json) : Option String := h.enumLabels.lookup v.displayText

def isEnabled (h : Hint) : Bool := h.enabled.getD true

def isVisible (h : Hint) : Bool := h.visible.getD true

mutual

def toJson : Hint → Json
  | ⟨title, help, placeholder, widget, enabled, visible, enumLabels, children⟩ =>
    .object
      [("title", .ofOption .string title),
        ("help", .ofOption .string help),
        ("placeholder", .ofOption .string placeholder),
        ("widget", .ofOption .string widget),
        ("enabled", .ofOption .bool enabled),
        ("visible", .ofOption .bool visible),
        ("enum_labels", .object (enumLabels.map fun l => (l.1, .string l.2))),
        ("children", .object (childrenJson children))]

def childrenJson : List (String × Hint) → List (String × Json)
  | [] => []
  | (name, h) :: rest => (name, toJson h) :: childrenJson rest

end

end Hint
end FormTree
