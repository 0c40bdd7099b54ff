import FormTree.Compile
import FormTree.Proofs.Except
import FormTree.Proofs.Widget.Values

/-!
What a node compiles to. Its schema and hints give a node one of three roles: a
widget that holds no others, a group of its properties, or a repeated field.
Each role has one form of tree, and a compilation that succeeds has built it.
-/

namespace FormTree

namespace Schema

inductive Role where
  | single
  | group (properties : List (String × Schema)) (required : List String)
  | repeated (items : Schema)

/-- What a node is displayed as, under its hints. -/
def role (s : Schema) (h : Hint) : Role :=
  match s.shape, s.resolve h with
  | .object properties required _, .type .object => .group properties required
  | .array items, .type .array => if items.enumValues?.isSome then .single else .repeated items
  | _, _ => .single

theorem shape_of_group {s : Schema} {h : Hint} {properties : List (String × Schema)}
    {required : List String} (hr : s.role h = .group properties required) :
    ∃ rest, s.shape = .object properties required rest ∧ s.resolve h = .type .object := by
  rw [role] at hr
  split at hr
  · next hs hres =>
    cases hr
    exact ⟨_, hs, hres⟩
  · split at hr <;> cases hr
  · cases hr

theorem shape_of_repeated {s : Schema} {h : Hint} {items : Schema}
    (hr : s.role h = .repeated items) :
    s.shape = .array items ∧ s.resolve h = .type .array ∧ items.enumValues? = none := by
  rw [role] at hr
  split at hr
  · cases hr
  · next hs hres =>
    split at hr
    · cases hr
    · next henum =>
      cases hr
      exact ⟨hs, hres, by simpa using henum⟩
  · cases hr

theorem properties_of_group {s : Schema} {h : Hint} {properties : List (String × Schema)}
    {required : List String} (hr : s.role h = .group properties required) :
    s.properties? = some properties := by
  obtain ⟨rest, hs, -⟩ := shape_of_group hr
  rw [properties?, hs]

theorem items_of_repeated {s : Schema} {h : Hint} {items : Schema}
    (hr : s.role h = .repeated items) : s.items? = some items := by
  rw [items?, (shape_of_repeated hr).1]

end Schema

namespace Widget.Kind

/-- A widget whose value is entered in it. -/
def isInput : Kind → Bool
  | .repeatable | .group | .markup | .removableItem | .addControl | .removeControl => false
  | _ => true

end Widget.Kind

namespace Compile

/-- The widget stands at a path, under the path of its node in the schema. -/
structure Context.Stands (c : Context) (name : String) (p : Path) (w : Widget) : Prop where
  name : w.name = name
  path : w.path = p
  propPath : w.propPath = c.schemaPath p

/-- What a widget that holds no others shows: a constant, or the value that was
entered, or else the default of its node. -/
inductive Shows (s : Schema) (input : Option Json) (w : Widget) : Prop
  | constant (kind : w.kind = .markup) (value : w.defaultValue = none)
  | entered (kind : w.kind.isInput = true)
      (value : w.defaultValue = (input.filter (· ≠ .null) <|> s.default))

/-- The item of a repeated field under an index in use. -/
def Context.item (c : Context) (p : Path) (title : String) (h : Hint) (input : Option Json)
    (items : Schema) (place i : Nat) (t : RepeatTable) : Outcome := do
  let (tree, t) ←
    node c t (toString i) (p ++ [.index i, .wrapper]) h.item (itemInput input place i) items
  return (c.wrapItem p title i tree, t)

/-- The widget of a group, whatever it holds. -/
def Context.groupWidget (c : Context) (s : Schema) (name : String) (p : Path) (h : Hint) : Widget :=
  flagged h { c.scaffold s name p h none with kind := .group, defaultValue := none }

section Roles

variable {c : Context} {t t' : RepeatTable} {name : String} {p : Path} {h : Hint}
  {input : Option Json} {s : Schema} {tree : WidgetTree}

/-- A node that is not too deep, by its shape and by what it resolves to. -/
theorem node_eq (hd : ¬c.options.maxDepth < c.depth p) :
    node c t name p h input s =
      let w := { c.scaffold s name p h input with kind := resolvedKind s (s.resolve h) }
      match s.shape, s.resolve h with
      | .const value, _ => .ok (markup w value, t)
      | .enum values, _ => .ok (choice h w values, t)
      | .array items, .type .array => c.repeated t h input w items fun t name p h input =>
          node c t name p h input items
      | .array items, .widget _ =>
          .ok (leaf h { w with options := ((items.enumValues?).map (optionsFor h)).getD [] }, t)
      | .object properties required _, .type .object => do
          let (children, t) ← members c t p h input required properties
          return (.node (flagged h { w with kind := .group, defaultValue := none }) children, t)
      | .array _, .type .object | .scalar, .type .object => .error (.objectWithoutProperties p)
      | .object _ _ _, .type .array | .scalar, .type .array => .error (.arrayWithoutItems p)
      | _, _ => .ok (leaf h w, t) := by
  obtain ⟨types, title, description, default, format, shape⟩ := s
  rw [node, if_neg hd]
  cases shape with
  | const _ | enum _ => rfl
  | array _ | object _ _ _ | scalar =>
      dsimp only
      generalize Schema.resolve _ h = r
      rcases r with (_ | _ | _ | _ | _ | _ | _) | _ | _ <;> rfl

theorem node_of_deep (hd : c.options.maxDepth < c.depth p) :
    node c t name p h input s = .error (.depthExceeded p c.options.maxDepth) := by
  obtain ⟨types, title, description, default, format, shape⟩ := s
  rw [node, if_pos hd]

theorem node_depth (hok : node c t name p h input s = .ok (tree, t')) :
    ¬c.options.maxDepth < c.depth p := by
  intro hd
  rw [node_of_deep hd] at hok
  cases hok

private theorem isInput_kindFor {u : JsonType} (harray : u ≠ .array) (hobject : u ≠ .object) :
    (kindFor s u).isInput = true := by
  cases u with
  | array => exact absurd rfl harray
  | object => exact absurd rfl hobject
  | string => rw [kindFor]; split <;> rfl
  | _ => rfl

private theorem isInput_resolvedKind {r : Resolution} (harray : r ≠ .type .array)
    (hobject : r ≠ .type .object) : (resolvedKind s r).isInput = true := by
  cases r with
  | type u => exact isInput_kindFor (fun h => harray (h ▸ rfl)) (fun h => hobject (h ▸ rfl))
  | _ => rfl

theorem node_single (hok : node c t name p h input s = .ok (tree, t'))
    (hr : s.role h = .single) :
    t' = t ∧ ∃ w, tree = .node w [] ∧ c.Stands name p w ∧ Shows s input w := by
  rw [node_eq (node_depth hok)] at hok
  rw [Schema.role] at hr
  dsimp only at hok
  split at hok
  · cases hok
    exact ⟨rfl, _, rfl, ⟨rfl, rfl, rfl⟩, .constant rfl rfl⟩
  · cases hok
    refine ⟨rfl, _, rfl, ⟨rfl, rfl, rfl⟩, .entered ?_ rfl⟩
    cases hres : s.resolve h with
    | type u =>
        cases u <;> first | rfl | (simp only [flagged, resolvedKind, kindFor]; split <;> rfl)
    | _ => rfl
  · next items hs hres =>
    rw [hs, hres] at hr
    dsimp only at hr
    split at hr
    · next henum =>
      obtain ⟨values, hvalues⟩ := Option.isSome_iff_exists.1 henum
      rw [Context.repeated, hvalues] at hok
      cases hok
      exact ⟨rfl, _, rfl, ⟨rfl, rfl, rfl⟩, .entered rfl rfl⟩
    · cases hr
  · next hres =>
    cases hok
    refine ⟨rfl, _, rfl, ⟨rfl, rfl, rfl⟩, .entered ?_ rfl⟩
    exact isInput_resolvedKind (by simp [hres]) (by simp [hres])
  · next hs hres =>
    rw [hs, hres] at hr
    cases hr
  · cases hok
  · cases hok
  · cases hok
  · cases hok
  · next hconst henum harray _ hgroup hnone hscalar hobject hscalar' =>
    have noArray : s.resolve h ≠ .type .array := by
      intro hres
      cases hs : s.shape with
      | const value => exact hconst value hs
      | enum values => exact henum values hs
      | array items => exact harray items hs hres
      | object properties required rest => exact hobject properties required rest hs hres
      | scalar => exact hscalar' hs hres
    have noObject : s.resolve h ≠ .type .object := by
      intro hres
      cases hs : s.shape with
      | const value => exact hconst value hs
      | enum values => exact henum values hs
      | array items => exact hnone items hs hres
      | object properties required rest => exact hgroup properties required rest hs hres
      | scalar => exact hscalar hs hres
    cases hok
    exact ⟨rfl, _, rfl, ⟨rfl, rfl, rfl⟩, .entered (isInput_resolvedKind noArray noObject) rfl⟩

theorem node_group {properties : List (String × Schema)} {required : List String}
    (hok : node c t name p h input s = .ok (tree, t'))
    (hr : s.role h = .group properties required) :
    ∃ w children, tree = .node w children ∧ c.Stands name p w ∧ w.kind = .group ∧
      members c t p h input required properties = .ok (children, t') := by
  obtain ⟨rest, hs, hres⟩ := Schema.shape_of_group hr
  rw [node_eq (node_depth hok), hs, hres] at hok
  obtain ⟨⟨children, u⟩, hmembers, hok⟩ := bind_eq_ok.1 hok
  cases hok
  exact ⟨_, children, rfl, ⟨rfl, rfl, rfl⟩, rfl, hmembers⟩

theorem node_repeated {items : Schema} (hok : node c t name p h input s = .ok (tree, t'))
    (hr : s.role h = .repeated items) :
    ∃ key w title children, FieldKey.ofPath? (c.schemaPath p) = some key ∧
      tree = .node w (children ++ [c.addControl p]) ∧ c.Stands name p w ∧ w.kind = .repeatable ∧
      forItems (c.item p title h input items) 0 (t.ensured key (itemCount input) p).indices
        (t.ensure key (itemCount input) p) = .ok (children, t') := by
  obtain ⟨hs, hres, henum⟩ := Schema.shape_of_repeated hr
  rw [node_eq (node_depth hok), hs, hres] at hok
  dsimp only at hok
  rw [Context.repeated, henum] at hok
  dsimp only at hok
  split at hok
  · cases hok
  · next key hkey =>
    obtain ⟨⟨children, u⟩, hitems, hok⟩ := bind_eq_ok.1 hok
    cases hok
    exact ⟨key, _, _, children, hkey, rfl, ⟨rfl, rfl, rfl⟩, rfl, hitems⟩

/-- Nothing of a widget that holds no others depends on the table, and nothing but its value on
its input. -/
theorem node_single_eq (hok : node c t name p h input s = .ok (tree, t'))
    (hr : s.role h = .single) :
    ∃ w : Option Json → Widget,
      (∀ u input, node c u name p h input s = .ok (.node (w input) [], u)) ∧
        ∀ input input', (w input).withoutValue = (w input').withoutValue := by
  have hd := node_depth hok
  rw [node_eq hd] at hok
  simp only [node_eq hd]
  rw [Schema.role] at hr
  generalize s.resolve h = r at hok hr ⊢
  generalize s.shape = shape at hok hr ⊢
  cases shape with
  | const _ | enum _ => exact ⟨_, fun _ _ => rfl, fun _ _ => rfl⟩
  | array items =>
      cases r with
      | unresolved | widget _ => exact ⟨_, fun _ _ => rfl, fun _ _ => rfl⟩
      | type u =>
        cases u with
        | object => cases hok
        | array =>
          cases henum : items.enumValues? with
          | none => simp [henum] at hr
          | some values =>
            simp only [Context.repeated, henum]
            exact ⟨_, fun _ _ => rfl, fun _ _ => rfl⟩
        | _ => exact ⟨_, fun _ _ => rfl, fun _ _ => rfl⟩
  | object _ _ _ =>
      cases r with
      | unresolved | widget _ => exact ⟨_, fun _ _ => rfl, fun _ _ => rfl⟩
      | type u =>
        cases u with
        | array => cases hok
        | object => cases hr
        | _ => exact ⟨_, fun _ _ => rfl, fun _ _ => rfl⟩
  | scalar =>
      cases r with
      | unresolved | widget _ => exact ⟨_, fun _ _ => rfl, fun _ _ => rfl⟩
      | type u =>
        cases u with
        | array | object => cases hok
        | _ => exact ⟨_, fun _ _ => rfl, fun _ _ => rfl⟩

theorem node_group_eq {properties : List (String × Schema)} {required : List String}
    (hd : ¬c.options.maxDepth < c.depth p) (hr : s.role h = .group properties required) :
    node c t name p h input s = do
      let (children, t) ← members c t p h input required properties
      return (.node (c.groupWidget s name p h) children, t) := by
  obtain ⟨rest, hs, hres⟩ := Schema.shape_of_group hr
  rw [node_eq hd, hs, hres]
  rfl

theorem node_repeated_of_none {items : Schema} (hd : ¬c.options.maxDepth < c.depth p)
    (hr : s.role h = .repeated items) (none : FieldKey.ofPath? (c.schemaPath p) = none) :
    node c t name p h input s = .error (.repeatedRoot p) := by
  obtain ⟨hs, hres, henum⟩ := Schema.shape_of_repeated hr
  have noField : FieldKey.ofPath? (c.scaffold s name p h input).propPath = Option.none := none
  rw [node_eq hd, hs, hres]
  dsimp only
  rw [Context.repeated, henum]
  dsimp only
  rw [noField]
  rfl

theorem node_repeated_eq {items : Schema} {key : FieldKey}
    (hd : ¬c.options.maxDepth < c.depth p) (hr : s.role h = .repeated items)
    (field : FieldKey.ofPath? (c.schemaPath p) = some key) :
    node c t name p h input s = do
      let live := t.ensured key (itemCount input) p
      let (children, t) ← forItems (c.item p (c.scaffold s name p h none).title h input items) 0
        live.indices (t.ensure key (itemCount input) p)
      return (c.repeatable h (c.scaffold s name p h none) live children, t) := by
  obtain ⟨hs, hres, henum⟩ := Schema.shape_of_repeated hr
  have hfield : FieldKey.ofPath? (c.scaffold s name p h input).propPath = some key := field
  rw [node_eq hd, hs, hres]
  dsimp only
  rw [Context.repeated, henum]
  dsimp only
  rw [hfield]
  rfl

end Roles

end Compile
end FormTree
