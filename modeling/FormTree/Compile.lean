import FormTree.Entries
import FormTree.Label
import FormTree.Repeat.Table
import FormTree.Resolve
import FormTree.Schema.Normal
import FormTree.Text.Replace
import FormTree.Widget

/-!
Compilation of a schema, hints and the current input into a widget tree. The
items of a repeated field are those of the table of repeated fields; a field
that the table does not know yet gets a record for the items of its input, and
the table is handed on.
-/

namespace FormTree

structure CompileOptions where
  /-- How far below the root a widget may be. -/
  maxDepth : Nat := defaultMaxDepth
  addMoreLabel : String := "Append an item"
  removeLabel : String := "Remove item"
  /-- The title of an item, with the places of the field's title and the item's
  number from one. -/
  itemTitleFormat : String := "\x7btitle\x7d (value \x7bnumber\x7d)"
deriving DecidableEq, Repr

namespace CompileOptions

/-- The title of the item with a given index. The field's title is put in first,
so a place for the number inside it is filled too. -/
def itemTitle (o : CompileOptions) (title : String) (i : Nat) : String :=
  Text.replace (Text.replace o.itemTitleFormat "\x7btitle\x7d" title) "\x7bnumber\x7d"
    (toString (i + 1))

end CompileOptions

inductive CompileError where
  | arrayWithoutItems (path : Path)
  | objectWithoutProperties (path : Path)
  | repeatedRoot (path : Path)
  | depthExceeded (path : Path) (maxDepth : Nat)
deriving DecidableEq, Repr

namespace CompileError

def unsupported (path : Path) (reason : String) : String :=
  "unsupported field at '" ++ path.toText ++ "': " ++ reason

def message : CompileError → String
  | .arrayWithoutItems path => unsupported path "array widget requires an items schema"
  | .objectWithoutProperties path =>
    unsupported path "object widget requires declared properties"
  | .repeatedRoot path => unsupported path "repeatable field cannot be the form root"
  | .depthExceeded path maxDepth =>
    "form nesting exceeds maximum depth " ++ toString maxDepth ++ " at '" ++ path.toText ++ "'"

end CompileError

namespace Compile

structure Context where
  options : CompileOptions
  /-- Where the form is mounted. -/
  root : Path

def kindFor (s : Schema) : JsonType → Widget.Kind
  | .boolean => .checkbox
  | .string => if s.isEmail then .email else .textfield
  | .integer => .integer
  | .number => .number
  | .array => .repeatable
  | .object => .group
  | .null => .unresolved

def optionsFor (h : Hint) (values : List Json) : List (String × String) :=
  Entries.ofList (values.map fun v =>
    (v.displayText, (h.labelFor? v).getD (Label.humanize v.displayText)))

/-- The number of items in the input of a repeated field: those of a list, and
the keys of a mapping that denote an index. There are no more than indices. -/
def itemCount : Option Json → Nat
  | some (.array items) => min items.length maxIndex
  | some (.object members) =>
    min (members.countP fun m => (FieldKey.indexOfText? m.1).isSome) maxIndex
  | _ => 0

/-- The value inside the wrapper of a removable item, or the value itself. -/
def unwrapped (v : Json) : Json := (v.member? Segment.wrapperKey).getD v

/-- The input of an item: in a list by its place among the items, in a mapping
by its index. -/
def itemInput (input : Option Json) (place i : Nat) : Option Json :=
  match input with
  | some (.array items) => items[place]?.map unwrapped
  | some (.object members) => (members.lookup (toString i)).map unwrapped
  | _ => none

def Context.schemaPath (c : Context) (p : Path) : Path := Path.relativeTo c.root p

/-- The number of steps from the mount to a path; a path elsewhere counts as
the mount itself. -/
def Context.depth (c : Context) (p : Path) : Nat :=
  ((p.below? c.root).map fun rest => rest.withoutSynthetic.length).getD 0

def Context.scaffold (c : Context) (s : Schema) (name : String) (p : Path) (h : Hint)
    (input : Option Json) : Widget where
  name
  path := p
  propPath := c.schemaPath p
  kind := .unresolved
  title := (h.title <|> s.title).getD (Label.humanize name)
  description := (h.help <|> s.description).filter (· ≠ "")
  placeholder := h.placeholder
  defaultValue := input.filter (· ≠ .null) <|> s.default

/-- The kind that a node resolves to, before its enumeration is looked at. -/
def resolvedKind (s : Schema) : Resolution → Widget.Kind
  | .type t => kindFor s t
  | .widget name => .custom name
  | .unresolved => .unresolved

def Context.removeControl (c : Context) (itemPath : Path) (i : Nat) : WidgetTree :=
  let p := itemPath ++ [.control .remove]
  .node
    { name := Control.remove.key
      path := p
      propPath := c.schemaPath p
      kind := .removeControl
      title := c.options.removeLabel
      delta := some i }
    []

def Context.addControl (c : Context) (fieldPath : Path) : WidgetTree :=
  let p := fieldPath ++ [.control .addMore]
  .node
    { name := Control.addMore.key
      path := p
      propPath := c.schemaPath p
      kind := .addControl
      title := c.options.addMoreLabel }
    []

def Context.wrapItem (c : Context) (fieldPath : Path) (title : String) (i : Nat) :
    WidgetTree → WidgetTree
  | .node w children =>
    let p := fieldPath ++ [.index i]
    let itemTitle := c.options.itemTitle title i
    let element := { w with required := false, description := none, title := itemTitle }
    .node
      { name := toString i
        path := p
        propPath := c.schemaPath p
        kind := .removableItem
        title := itemTitle }
      [.node element children, c.removeControl p i]

/-- The flags that the hints set last. -/
def flagged (h : Hint) (w : Widget) : Widget :=
  { w with enabled := h.isEnabled, visible := h.isVisible }

/-- The outcome of a compilation: a tree, and the table handed on. -/
abbrev Outcome := Except CompileError (WidgetTree × RepeatTable)

/-- Runs a compilation for each item in use, with its place, and hands the table
on from one to the next. -/
def forItems (f : Nat → Nat → RepeatTable → Outcome) (place : Nat) :
    List Nat → RepeatTable → Except CompileError (List WidgetTree × RepeatTable)
  | [], t => .ok ([], t)
  | i :: rest, t => do
    let (item, t) ← f place i t
    let (items, t) ← forItems f (place + 1) rest t
    return (item :: items, t)

def Context.repeatable (c : Context) (h : Hint) (w : Widget) (live : LiveItems)
    (items : List WidgetTree) : WidgetTree :=
  let field : Widget :=
    { w with
      kind := .repeatable
      defaultValue := none
      cardinality := some { maxIndex := live.max?, unlimited := true } }
  .node (flagged h field) (items ++ [c.addControl w.path])

def leaf (h : Hint) (w : Widget) : WidgetTree := .node (flagged h w) []

def markup (w : Widget) (value : Json) : WidgetTree :=
  .node
    { w with
      kind := .markup
      markup := some value.displayText
      defaultValue := none
      placeholder := none }
    []

/-- A widget with the options of an enumeration; a widget named by a hint keeps
its kind. -/
def choice (h : Hint) (w : Widget) (values : List Json) : WidgetTree :=
  leaf h
    { w with
      options := optionsFor h values
      kind := if w.kind.isCustom then w.kind else .radios }

/-- Marks a property as required or not. Constants never are. -/
def withRequired (s : Schema) (required : Bool) : WidgetTree → WidgetTree
  | .node w children => .node (if s.isConst then w else { w with required }) children

/-- Compiles an array: a set of choices where its items are an enumeration, and
else an element for each item in use, by `element`. -/
def Context.repeated (c : Context) (t : RepeatTable) (h : Hint) (input : Option Json)
    (w : Widget) (items : Schema)
    (element : RepeatTable → String → Path → Hint → Option Json → Outcome) : Outcome :=
  match items.enumValues? with
  | some values =>
    .ok (leaf h { w with kind := .checkboxes, options := optionsFor h values }, t)
  | none =>
    match FieldKey.ofPath? w.propPath with
    | none => .error (.repeatedRoot w.path)
    | some key => do
      let count := itemCount input
      let live := t.ensured key count w.path
      let item (place i : Nat) (t : RepeatTable) : Outcome := do
        let p := w.path ++ [.index i, .wrapper]
        let (tree, t) ← element t (toString i) p h.item (itemInput input place i)
        return (c.wrapItem w.path w.title i tree, t)
      let (children, t) ← forItems item 0 live.indices (t.ensure key count w.path)
      return (c.repeatable h w live children, t)

mutual

/-- Compiles a node of the schema at a path of the widget tree. -/
def node (c : Context) (t : RepeatTable) (name : String) (p : Path) (h : Hint)
    (input : Option Json) : Schema → Outcome
  | ⟨types, title, description, default, format, shape⟩ =>
    if c.options.maxDepth < c.depth p then .error (.depthExceeded p c.options.maxDepth)
    else
      let s : Schema := ⟨types, title, description, default, format, shape⟩
      let resolution := s.resolve h
      let w := { c.scaffold s name p h input with kind := resolvedKind s resolution }
      match shape with
      | .const value => .ok (markup w value, t)
      | .enum values => .ok (choice h w values, t)
      | .array items =>
        match resolution with
        | .type .array =>
          c.repeated t h input w items fun t name p h input => node c t name p h input items
        | .type .object => .error (.objectWithoutProperties p)
        | .widget _ =>
          .ok (leaf h { w with options := ((items.enumValues?).map (optionsFor h)).getD [] }, t)
        | _ => .ok (leaf h w, t)
      | .object properties required _ =>
        match resolution with
        | .type .array => .error (.arrayWithoutItems p)
        | .type .object => do
          let (children, t) ← members c t p h input required properties
          return (.node (flagged h { w with kind := .group, defaultValue := none }) children, t)
        | _ => .ok (leaf h w, t)
      | .scalar =>
        match resolution with
        | .type .array => .error (.arrayWithoutItems p)
        | .type .object => .error (.objectWithoutProperties p)
        | _ => .ok (leaf h w, t)

def members (c : Context) (t : RepeatTable) (p : Path) (h : Hint) (input : Option Json)
    (required : List String) :
    List (String × Schema) → Except CompileError (List WidgetTree × RepeatTable)
  | [] => .ok ([], t)
  | (name, s) :: rest => do
    let (child, t) ←
      node c t name (p ++ [.property name]) (h.child name) (input.bind (·.member? name)) s
    let (children, t) ← members c t p h input required rest
    return (withRequired s (required.contains name) child :: children, t)

end

end Compile

structure CompiledForm where
  tree : WidgetTree
  table : RepeatTable

/-- Compiles a whole form, mounted at `root`; it is named after the last segment
of the mount. -/
def compileForm (options : CompileOptions) (root : Path) (d : SchemaDocument) (h : Hint)
    (input : Option Json) (t : RepeatTable) : Except CompileError CompiledForm := do
  let name := (root.getLast?.map Segment.key).getD ""
  let (tree, table) ← Compile.node ⟨options, root⟩ t name root h input d.root
  return ⟨tree, table⟩

end FormTree
