import FormTree.Proofs.Json.Pointer
import FormTree.Proofs.Widget.Layout

/-!
The fields of a form are its nodes other than wrappers and controls. Segments
lead from the root to a field, and so do reference tokens, which count the items
of a repeated field by their places. In a layout tokens reach no more than one
field.
-/

namespace FormTree
namespace WidgetTree

/-- Segments, and the tokens beside them, lead from a tree to a field of it. -/
inductive At : WidgetTree → Path → List String → WidgetTree → Prop
  | here (t : WidgetTree) : At t [] [] t
  | property {t child n : WidgetTree} {name : String} {rel : Path} {tokens : List String}
      (kind : t.widget.kind = .group) (held : child ∈ t.children)
      (path : child.path = t.path ++ [.property name]) (below : At child rel tokens n) :
      At t (.property name :: rel) (name :: tokens) n
  | item {t item element n : WidgetTree} {place i : Nat} {rel : Path} {tokens : List String}
      (kind : t.widget.kind = .repeatable) (held : t.children[place]? = some item)
      (wrapped : IsItem t.path i element item) (below : At element rel tokens n) :
      At t (.index i :: .wrapper :: rel) (toString place :: tokens) n

theorem IsControl.not_field {p : Path} {kind : Control} {t : WidgetTree} (h : IsControl p kind t) :
    t.widget.kind.isStructural = true := by
  have := h.isControl
  cases hk : t.widget.kind <;> simp_all [Widget.Kind.isControl, Widget.Kind.isStructural]

theorem IsControl.nodes {p : Path} {kind : Control} {t : WidgetTree} (h : IsControl p kind t) :
    t.nodes = [t] := by
  rw [nodes_eq, h.leaf]
  rfl

theorem IsItem.not_control {p q : Path} {i : Nat} {kind : Control} {element item : WidgetTree}
    (h : IsItem p i element item) : ¬IsControl q kind item := by
  intro hc
  have := hc.isControl
  rw [h.kind] at this
  cases this

theorem IsItem.unique {p : Path} {i j : Nat} {element element' item : WidgetTree}
    (h : IsItem p i element item) (h' : IsItem p j element' item) : i = j ∧ element = element' := by
  have path := h.path
  rw [h'.path] at path
  obtain ⟨_, _, children⟩ := h.children
  obtain ⟨_, _, children'⟩ := h'.children
  rw [children] at children'
  exact ⟨by simpa using path.symm, (List.cons.inj children').1⟩

/-- What wraps an element at a place is the row of that place, and not the add control. -/
theorem row_at {p : Path} {rows : List Row} {add item element : WidgetTree} {place i : Nat}
    (items : ∀ r ∈ rows, IsItem p r.index r.element r.item) (control : IsControl p .addMore add)
    (held : (rows.map Row.item ++ [add])[place]? = some item) (wrapped : IsItem p i element item) :
    rows[place]? = some ⟨i, element, item⟩ := by
  rcases Nat.lt_or_ge place rows.length with inside | outside
  · rw [List.getElem?_append_left (by simpa using inside), List.getElem?_map] at held
    obtain ⟨r, hr, rfl⟩ := Option.map_eq_some_iff.1 held
    obtain ⟨rfl, rfl⟩ := wrapped.unique (items r (List.mem_of_getElem? hr))
    exact hr
  · rw [List.getElem?_append_right (by simpa using outside)] at held
    obtain rfl := List.mem_singleton.1 (List.mem_of_getElem? held)
    exact absurd control wrapped.not_control

namespace Layout

variable {p : Path} {t : WidgetTree}

theorem path (h : Layout p t) : t.path = p := h.placed.path

theorem isField (h : Layout p t) : t.widget.kind.isStructural = false := by
  cases h with
  | single _ kind => exact kind
  | group _ kind _ _ | repeated _ kind _ _ _ _ => exact kind ▸ rfl

theorem child (h : Layout p t) (kind : t.widget.kind = .group) {child : WidgetTree}
    (held : child ∈ t.children) {name : String} (path : child.path = t.path ++ [.property name]) :
    Layout (p ++ [.property name]) child := by
  cases h with
  | single => cases held
  | @group _ w rows hpath _ _ below =>
      obtain ⟨r, hr, rfl⟩ := List.mem_map.1 held
      have hp := (below r hr).path
      rw [path] at hp
      change w.path ++ _ = _ at hp
      rw [hpath] at hp
      obtain rfl : name = r.1 := by simpa using hp
      exact below r hr
  | repeated _ kind' _ _ _ _ =>
      exact absurd (kind.symm.trans kind') nofun

theorem element (h : Layout p t) (kind : t.widget.kind = .repeatable) {item element : WidgetTree}
    (held : item ∈ t.children) {i : Nat} (wrapped : IsItem t.path i element item) :
    Layout (p ++ [.index i, .wrapper]) element := by
  rw [h.path] at wrapped
  cases h with
  | single => cases held
  | group _ kind' _ _ => exact absurd (kind.symm.trans kind') nofun
  | repeated _ _ _ items below control =>
      obtain ⟨place, hplace⟩ := List.mem_iff_getElem?.1 held
      have row := row_at items control hplace wrapped
      exact below _ (List.mem_of_getElem? row)

/-- An item has one place. -/
theorem place_eq (h : Layout p t) (kind : t.widget.kind = .repeatable) {item element : WidgetTree}
    {place place' i : Nat} (held : t.children[place]? = some item)
    (held' : t.children[place']? = some item) (wrapped : IsItem t.path i element item) :
    place = place' := by
  rw [h.path] at wrapped
  cases h with
  | single => cases held
  | group _ kind' _ _ => exact absurd (kind.symm.trans kind') nofun
  | repeated _ _ nodup items _ control =>
      have row := row_at items control held wrapped
      have row' := row_at items control held' wrapped
      obtain ⟨inside, -⟩ := List.getElem?_eq_some_iff.1 row
      exact (List.getElem?_inj inside (.of_map _ nodup)).1 (row.trans row'.symm)

end Layout

namespace At

variable {p rel rel' : Path} {t n n' : WidgetTree} {tokens : List String}

theorem mem_nodes (h : At t rel tokens n) : n ∈ t.nodes := by
  induction h with
  | here t => exact mem_nodes_self t
  | property _ held _ _ ih => exact mem_nodes_iff.2 (.inr ⟨_, held, ih⟩)
  | item _ held wrapped _ ih =>
      obtain ⟨_, _, hchildren⟩ := wrapped.children
      refine mem_nodes_iff.2 (.inr ⟨_, List.mem_of_getElem? held, ?_⟩)
      exact mem_nodes_iff.2 (.inr ⟨_, hchildren ▸ List.mem_cons_self, ih⟩)

/-- From a group below the tree one more segment leads to a property. -/
theorem concat (h : At t rel tokens n) (kind : n.widget.kind = .group) {child : WidgetTree}
    (held : child ∈ n.children) {name : String} (path : child.path = n.path ++ [.property name]) :
    At t (rel ++ [.property name]) (tokens ++ [name]) child := by
  induction h with
  | here => exact .property kind held path (.here child)
  | property kind' held' path' _ ih => exact .property kind' held' path' (ih kind held path)
  | item kind' held' wrapped _ ih => exact .item kind' held' wrapped (ih kind held path)

theorem layout (h : At t rel tokens n) (hl : Layout p t) : Layout (p ++ rel) n := by
  induction h generalizing p with
  | here => rwa [List.append_nil]
  | property kind held path _ ih =>
      simpa using ih (hl.child kind held path)
  | item kind held wrapped _ ih =>
      simpa using ih (hl.element kind (List.mem_of_getElem? held) wrapped)

/-- Tokens lead to no more than one field. -/
theorem eq_of_tokens (h : At t rel tokens n) (hl : Layout p t) (h' : At t rel' tokens n') :
    n = n' := by
  induction h generalizing p rel' with
  | here =>
      cases h'
      rfl
  | @property t child _ name _ _ kind held path below ih =>
      cases h' with
      | @property _ child' _ _ _ _ _ held' path' below' =>
          have inside := mem_nodes_iff.2 (.inr ⟨child, held, mem_nodes_self child⟩)
          have inside' := mem_nodes_iff.2 (.inr ⟨child', held', mem_nodes_self child'⟩)
          obtain rfl := hl.placed.eq_of_path inside inside' (path.trans path'.symm)
          exact ih (hl.child kind held path) below'
      | item kind' _ _ _ => exact absurd (kind.symm.trans kind') nofun
  | @item t item element _ place i _ tokens kind held wrapped below ih =>
      generalize hts : toString place :: tokens = ts at h'
      cases h' with
      | here => cases hts
      | property kind' _ _ _ => exact absurd (kind.symm.trans kind') nofun
      | @item _ item' element' _ place' _ _ _ _ held' wrapped' below' =>
          obtain ⟨hplace, rfl⟩ := List.cons.inj hts
          obtain rfl := Pointer.toString_injective hplace
          obtain rfl : item = item' := Option.some.inj (held.symm.trans held')
          obtain ⟨rfl, rfl⟩ := wrapped.unique wrapped'
          exact ih (hl.element kind (List.mem_of_getElem? held) wrapped) below'

/-- Segments determine the tokens beside them. -/
private theorem tokens_eq {tokens' : List String} (h : At t rel tokens n) (hl : Layout p t)
    (h' : At t rel tokens' n') : tokens = tokens' := by
  induction h generalizing p tokens' with
  | here =>
      cases h'
      rfl
  | @property t child _ name _ _ kind held path below ih =>
      cases h' with
      | @property _ child' _ _ _ _ _ held' path' below' =>
          have inside := mem_nodes_iff.2 (.inr ⟨child, held, mem_nodes_self child⟩)
          have inside' := mem_nodes_iff.2 (.inr ⟨child', held', mem_nodes_self child'⟩)
          obtain rfl := hl.placed.eq_of_path inside inside' (path.trans path'.symm)
          rw [ih (hl.child kind held path) below']
  | @item t item element _ place i _ _ kind held wrapped below ih =>
      cases h' with
      | @item _ item' element' _ place' _ _ _ _ held' wrapped' below' =>
          have inside := List.mem_of_getElem? held
          have node := mem_nodes_iff.2 (.inr ⟨item, inside, mem_nodes_self item⟩)
          have node' := mem_nodes_iff.2
            (.inr ⟨item', List.mem_of_getElem? held', mem_nodes_self item'⟩)
          obtain rfl := hl.placed.eq_of_path node node' (wrapped.path.trans wrapped'.path.symm)
          obtain ⟨-, rfl⟩ := wrapped.unique wrapped'
          rw [ih (hl.element kind inside wrapped) below', hl.place_eq kind held held' wrapped]

/-- No more than one way leads to a field. -/
theorem unique {tokens' : List String} (h : At t rel tokens n) (hl : Layout p t)
    (h' : At t rel' tokens' n) : rel = rel' ∧ tokens = tokens' := by
  have same := (h.layout hl).path.symm.trans (h'.layout hl).path
  obtain rfl := List.append_cancel_left same
  exact ⟨rfl, h.tokens_eq hl h'⟩

end At
end WidgetTree
end FormTree
