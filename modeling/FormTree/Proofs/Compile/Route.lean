import FormTree.Proofs.Compile.Layout
import FormTree.Proofs.Lookup
import FormTree.Proofs.Widget.Fields

/-!
Routes through a schema. The segments and tokens that lead from the root of a
form to a field lead from the root of the schema to the node that the field
displays, and from the input of the form to the input of the field.
-/

namespace FormTree

open WidgetTree (At IsItem)

/-- Segments, and the tokens beside them, lead from a node of the schema to one below. -/
inductive Schema.Route : Schema → Hint → Path → List String → Schema → Hint → Prop
  | here (s : Schema) (h : Hint) : Route s h [] [] s h
  | property {s s' t : Schema} {h h' : Hint} {properties : List (String × Schema)}
      {required : List String} {name : String} {rel : Path} {tokens : List String}
      (role : s.role h = .group properties required) (declared : properties.lookup name = some t)
      (below : Route t (h.child name) rel tokens s' h') :
      Route s h (.property name :: rel) (name :: tokens) s' h'
  | item {s s' items : Schema} {h h' : Hint} {i place : Nat} {rel : Path} {tokens : List String}
      (role : s.role h = .repeated items) (below : Route items h.item rel tokens s' h') :
      Route s h (.index i :: .wrapper :: rel) (toString place :: tokens) s' h'

theorem Schema.Route.nodeAt? {s s' : Schema} {h h' : Hint} {rel : Path} {tokens : List String}
    (r : Route s h rel tokens s' h') : s.nodeAt? rel.withoutSynthetic = some s' := by
  induction r with
  | here => rfl
  | @property s _ _ _ _ _ _ name rel _ role declared _ ih =>
      change Schema.nodeAt? (.property name :: rel.withoutSynthetic) s = some _
      rw [Schema.nodeAt?, Schema.properties_of_group role, Option.bind_some, declared,
        Option.bind_some, ih]
  | @item s _ _ _ _ i _ rel _ role _ ih =>
      change Schema.nodeAt? (.index i :: rel.withoutSynthetic) s = some _
      rw [Schema.nodeAt?, Schema.items_of_repeated role, Option.bind_some, ih]

namespace Compile

/-- Segments, and the tokens beside them, lead from an input to the input of a part. -/
inductive Inputs : Option Json → Path → List String → Option Json → Prop
  | here (input : Option Json) : Inputs input [] [] input
  | property {input input' : Option Json} {name : String} {rel : Path} {tokens : List String}
      (below : Inputs (input.bind (·.member? name)) rel tokens input') :
      Inputs input (.property name :: rel) (name :: tokens) input'
  | item {input input' : Option Json} {i place : Nat} {rel : Path} {tokens : List String}
      (below : Inputs (itemInput input place i) rel tokens input') :
      Inputs input (.index i :: .wrapper :: rel) (toString place :: tokens) input'

theorem Inputs.unique {input a b : Option Json} {rel : Path} {tokens : List String}
    (h : Inputs input rel tokens a) (h' : Inputs input rel tokens b) : a = b := by
  induction h with
  | here =>
      cases h'
      rfl
  | property _ ih =>
      cases h' with
      | property below => exact ih below
  | @item _ _ _ place _ tokens _ ih =>
      generalize hts : toString place :: tokens = ts at h'
      cases h' with
      | item below =>
          obtain ⟨hplace, rfl⟩ := List.cons.inj hts
          obtain rfl := Pointer.toString_injective hplace
          exact ih below

/-- Nothing comes of no input. -/
theorem Inputs.of_none {input input' : Option Json} {rel : Path} {tokens : List String}
    (h : Inputs input rel tokens input') (absent : input = none) : input' = none := by
  induction h with
  | here => exact absent
  | property _ ih | item _ ih =>
      subst absent
      exact ih rfl

section Field

variable {c : Context} {T : RepeatTable} {name : String} {p : Path} {h : Hint}
  {input : Option Json} {s : Schema} {t n : WidgetTree}

theorem Displays.property (hd : Displays c T name p h input s t)
    (kind : t.widget.kind = .group) {child : WidgetTree} (held : child ∈ t.children) {key : String}
    (path : child.path = t.path ++ [.property key]) (sound : s.Everywhere Schema.Sound) :
    ∃ properties required s', s.role h = .group properties required ∧
      properties.lookup key = some s' ∧ s'.Everywhere Schema.Sound ∧
        Displays c T key (p ++ [.property key]) (h.child key) (input.bind (·.member? key)) s'
          child := by
  cases hd with
  | single => cases held
  | @group _ _ _ _ _ w properties required rows role stands _ all below =>
      obtain ⟨r, hr, rfl⟩ := List.mem_map.1 held
      have hp := (below r hr).stands.path
      change r.2.path = _ at hp
      rw [path, WidgetTree.path, WidgetTree.widget, stands.path, List.append_cancel_left_eq] at hp
      obtain rfl : key = r.1.1 := by simpa using hp
      have declared : r.1 ∈ properties := all ▸ List.mem_map_of_mem hr
      have hproperties := Schema.properties_of_group role
      have names := sound.here.names
      rw [Schema.names, hproperties, Option.getD_some] at names
      exact ⟨properties, required, r.1.2, role, lookup_of_mem names declared,
        sound.property hproperties declared, below r hr⟩
  | repeated _ _ kind' _ _ _ _ _ => cases kind.symm.trans kind'

theorem Displays.item (hd : Displays c T name p h input s t)
    (kind : t.widget.kind = .repeatable) {place i : Nat} {item element : WidgetTree}
    (held : t.children[place]? = some item) (wrapped : IsItem t.path i element item) :
    ∃ items, s.role h = .repeated items ∧
      Displays c T (toString i) (p ++ [.index i, .wrapper]) h.item (itemInput input place i) items
        element := by
  cases hd with
  | single => cases held
  | group _ _ kind' _ _ => exact absurd (kind.symm.trans kind') nofun
  | @repeated _ _ _ _ _ items _ _ rows add role stands _ _ _ itemsAt below control =>
      rw [WidgetTree.path, WidgetTree.widget, stands.path] at wrapped
      have row := WidgetTree.row_at itemsAt control held wrapped
      exact ⟨items, role, below place _ row⟩

/-- A field displays the node that the same segments lead to. -/
theorem Displays.field {rel : Path} {tokens : List String}
    (hd : Displays c T name p h input s t) (hat : At t rel tokens n)
    (sound : s.Everywhere Schema.Sound) :
    ∃ name' h' input' s', s.Route h rel tokens s' h' ∧ Inputs input rel tokens input' ∧
      Displays c T name' (p ++ rel) h' input' s' n := by
  induction hat generalizing name p h input s with
  | here => exact ⟨name, h, input, s, .here s h, .here input, by rwa [List.append_nil]⟩
  | property kind held path _ ih =>
      obtain ⟨properties, required, u, role, declared, soundBelow, shown⟩ :=
        hd.property kind held path sound
      obtain ⟨name', h', input', s', route, inputs, shown'⟩ := ih shown soundBelow
      rw [List.append_assoc] at shown'
      exact ⟨name', h', input', s', .property role declared route, .property inputs, shown'⟩
  | item kind held wrapped _ ih =>
      obtain ⟨items, role, shown⟩ := hd.item kind held wrapped
      obtain ⟨name', h', input', s', route, inputs, shown'⟩ :=
        ih shown (sound.item (Schema.items_of_repeated role))
      rw [List.append_assoc] at shown'
      exact ⟨name', h', input', s', .item role route, .item inputs, shown'⟩

theorem Displays.nodeAt?_propPath {rel : Path} {tokens : List String} {s' : Schema} {h' : Hint}
    (hd : Displays c T name c.root h input s t) (hat : At t rel tokens n)
    (sound : s.Everywhere Schema.Sound) (route : s.Route h rel tokens s' h') :
    s.nodeAt? n.widget.propPath = some s' := by
  obtain ⟨_, _, _, _, _, _, shown⟩ := hd.field hat sound
  rw [shown.stands.propPath, Context.schemaPath, Path.relativeTo_append]
  exact route.nodeAt?

end Field

end Compile
end FormTree
