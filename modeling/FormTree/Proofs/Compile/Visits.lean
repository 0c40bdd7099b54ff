import FormTree.Proofs.Compile.InTurn
import FormTree.Proofs.Compile.Route
import FormTree.Proofs.Repeat.Visits

/-!
What a compilation does to the table. It makes sure of the repeated fields of its
tree, each once, in their order, and with the number of items that the input of
the field has.
-/

namespace FormTree

open WidgetTree (At Retouched)

namespace Compile

variable {c : Context} {t t' : RepeatTable} {name : String} {p : Path} {h : Hint}
  {input : Option Json} {s : Schema} {tree : WidgetTree}

theorem stands_of_node (hok : node c t name p h input s = .ok (tree, t')) :
    c.Stands name p tree.widget := by
  cases hr : s.role h with
  | single =>
      obtain ⟨-, w, rfl, stands, -⟩ := node_single hok hr
      exact stands
  | group properties required =>
      obtain ⟨w, children, rfl, stands, -⟩ := node_group hok hr
      exact stands
  | repeated items =>
      obtain ⟨key, w, title, children, -, rfl, stands, -⟩ := node_repeated hok hr
      exact stands

/-- The visits are those to the repeated fields among some nodes of a tree, each made for the input
that reaches the field. -/
structure Meets (tree : WidgetTree) (input : Option Json) (nodes : List WidgetTree)
    (visits : List Visit) : Prop where
  locations : visits.map Visit.location = (nodes.filter WidgetTree.isRepeated).map WidgetTree.path
  reached : ∀ v ∈ visits, ∃ rel tokens n input', At tree rel tokens n ∧
    Inputs input rel tokens input' ∧ n.widget.kind = .repeatable ∧ n.path = v.location ∧
      FieldKey.ofPath? n.widget.propPath = some v.key ∧ v.count = itemCount input'

namespace Meets

variable {input' : Option Json} {child : WidgetTree} {nodes nodes' : List WidgetTree}
  {visits visits' : List Visit}

theorem nil (tree : WidgetTree) (input : Option Json) : Meets tree input [] [] := ⟨rfl, nofun⟩

theorem append (first : Meets tree input nodes visits) (second : Meets tree input nodes' visits') :
    Meets tree input (nodes ++ nodes') (visits ++ visits') := by
  constructor
  · rw [List.map_append, first.locations, second.locations, List.filter_append, List.map_append]
  · intro v hv
    rcases List.mem_append.1 hv with hv | hv
    · exact first.reached v hv
    · exact second.reached v hv

/-- Other nodes between the repeated fields make no difference. -/
theorem among (h : Meets tree input nodes visits)
    (same : nodes'.filter WidgetTree.isRepeated = nodes.filter WidgetTree.isRepeated) :
    Meets tree input nodes' visits := ⟨same ▸ h.locations, h.reached⟩

theorem lift {child' : WidgetTree} (h : Meets child input' child.nodes visits)
    (retouched : Retouched child child')
    (step : ∀ {rel tokens n input''}, At child rel tokens n → Inputs input' rel tokens input'' →
      ∃ rel' tokens' m, At tree rel' tokens' m ∧ Retouched n m ∧
        Inputs input rel' tokens' input'') :
    Meets tree input child'.nodes visits := by
  constructor
  · rw [h.locations, retouched.paths_repeated]
  · intro v hv
    obtain ⟨rel, tokens, n, input'', hat, inputs, kind, path, key, count⟩ := h.reached v hv
    obtain ⟨rel', tokens', m, hat, same, inputs⟩ := step hat inputs
    rw [← same.kind] at kind
    rw [← same.path] at path
    rw [← same.propPath] at key
    exact ⟨rel', tokens', m, input'', hat, inputs, kind, path, key, count⟩

end Meets

/-- The fields met by compilations in turn are those of their trees, as they are held. -/
theorem InTurn.meets {α : Type} {f : Nat → α → RepeatTable → Outcome} {place : Nat}
    {rows : List (α × WidgetTree)} {held : α × WidgetTree → WidgetTree}
    (each : ∀ n r, rows[n]? = some r → ∀ t u, f (place + n) r.1 t = .ok (r.2, u) →
      ∃ visits, u = t.visitAll visits ∧ Meets tree input (held r).nodes visits)
    (inTurn : InTurn f place rows t t') :
    ∃ visits, t' = t.visitAll visits ∧
      Meets tree input ((rows.map held).flatMap WidgetTree.nodes) visits := by
  induction inTurn with
  | nil => exact ⟨[], rfl, .nil tree input⟩
  | @cons place a child rows t u v first _ ih =>
      obtain ⟨visits, rfl, here⟩ := each 0 (a, child) rfl t u first
      have later : ∀ n r, rows[n]? = some r → ∀ t u, f (place + 1 + n) r.1 t = .ok (r.2, u) →
          ∃ visits, u = t.visitAll visits ∧ Meets tree input (held r).nodes visits := by
        intro n r hr
        rw [Nat.add_right_comm]
        exact each (n + 1) r hr
      obtain ⟨visits', rfl, rest⟩ := ih later
      exact ⟨visits ++ visits', (RepeatTable.visitAll_append t visits visits').symm,
        here.append rest⟩

theorem nodes_wrapItem {title : String} {i : Nat} {element element' : WidgetTree}
    (wrapped : (c.wrapItem p title i element).children =
      [element', c.removeControl (p ++ [.index i]) i]) :
    (c.wrapItem p title i element).nodes.filter WidgetTree.isRepeated =
      element'.nodes.filter WidgetTree.isRepeated := by
  have item : (c.wrapItem p title i element).isRepeated = false := by cases element; rfl
  have control : (c.removeControl (p ++ [.index i]) i).nodes.filter WidgetTree.isRepeated = [] :=
    rfl
  rw [WidgetTree.nodes_eq, wrapped, List.filter_cons_of_neg (by simp [item]), List.flatMap_cons,
    List.flatMap_singleton, List.filter_append, control, List.append_nil]

private def MeetsFields (c : Context) (s : Schema) : Prop :=
  ∀ ⦃t t' name p h input tree⦄, node c t name p h input s = .ok (tree, t') →
    ∃ visits, t' = t.visitAll visits ∧ Meets tree input tree.nodes visits

private theorem group_meets {properties : List (String × Schema)} {required : List String}
    (below : ∀ m ∈ properties, MeetsFields c m.2) (hr : s.role h = .group properties required)
    (hok : node c t name p h input s = .ok (tree, t')) :
    ∃ visits, t' = t.visitAll visits ∧ Meets tree input tree.nodes visits := by
  rw [node_group_eq (node_depth hok) hr] at hok
  obtain ⟨⟨children, u⟩, hmembers, hok⟩ := bind_eq_ok.1 hok
  cases hok
  obtain ⟨rows, rfl, rfl, inTurn⟩ := (members_ok_iff 0).1 hmembers
  let whole : WidgetTree := .node (c.groupWidget s name p h) (rows.map (heldProperty required))
  change ∃ visits, _ ∧ Meets whole input whole.nodes visits
  have each : ∀ n r, rows[n]? = some r → ∀ t u, c.property p h input (0 + n) r.1 t = .ok (r.2, u) →
      ∃ visits, u = t.visitAll visits ∧
        Meets whole input (heldProperty required r).nodes visits := by
    intro n r hr t u first
    have inside := List.mem_of_getElem? hr
    obtain ⟨visits, same, meets⟩ := below r.1 (List.mem_map_of_mem inside) first
    refine ⟨visits, same, meets.lift (retouched_heldProperty required r) ?_⟩
    intro rel tokens n input' hat inputs
    have path : r.2.path = p ++ [.property r.1.1] := (stands_of_node first).path
    obtain ⟨m, hat, retouched⟩ :=
      exists_at_group (w := c.groupWidget s name p h) rfl inside path hat
    exact ⟨_, _, m, hat, retouched, .property inputs⟩
  obtain ⟨visits, rfl, meets⟩ := inTurn.meets each
  refine ⟨visits, rfl, meets.among ?_⟩
  rw [WidgetTree.nodes_eq]
  rfl

private theorem repeated_meets {items : Schema} (below : MeetsFields c items)
    (hr : s.role h = .repeated items) (hok : node c t name p h input s = .ok (tree, t')) :
    ∃ visits, t' = t.visitAll visits ∧ Meets tree input tree.nodes visits := by
  have hd := node_depth hok
  obtain ⟨key, -, -, -, field, -⟩ := node_repeated hok hr
  rw [node_repeated_eq hd hr field] at hok
  obtain ⟨⟨children, u⟩, hitems, hok⟩ := bind_eq_ok.1 hok
  cases hok
  obtain ⟨rows, -, rfl, inTurn⟩ := forItems_ok_iff.1 hitems
  let title := (c.scaffold s name p h none).title
  let held := c.heldItem p title
  let whole : WidgetTree := c.repeatable h (c.scaffold s name p h none)
    (t.ensured key (itemCount input) p) (rows.map held)
  change ∃ visits, _ ∧ Meets whole input whole.nodes visits
  have each : ∀ n r, rows[n]? = some r → ∀ t u,
      c.element p h input items (0 + n) r.1 t = .ok (r.2, u) →
      ∃ visits, u = t.visitAll visits ∧ Meets whole input (held r).nodes visits := by
    intro n r hr t u first
    rw [Nat.zero_add] at first
    obtain ⟨visits, same, meets⟩ := below first
    obtain ⟨element, retouched, -, children⟩ := wrapItem_eq c p title r.1 r.2
    refine ⟨visits, same, (meets.lift retouched ?_).among (nodes_wrapItem children)⟩
    intro rel tokens m input' hat inputs
    obtain ⟨m', hat, retouched⟩ := exists_at_repeatable hr hat
    exact ⟨_, _, m', hat, retouched, .item inputs⟩
  obtain ⟨visits, rfl, meets⟩ := inTurn.meets each
  let here : Visit := ⟨key, itemCount input, p⟩
  have root : Meets whole input [whole] [here] := by
    refine ⟨rfl, List.forall_mem_singleton.2 ?_⟩
    exact ⟨[], [], whole, input, .here whole, .here input, rfl, rfl, field, rfl⟩
  refine ⟨here :: visits, rfl, (root.append meets).among ?_⟩
  have nodes : whole.nodes = whole :: (rows.map held ++ [c.addControl p]).flatMap
      WidgetTree.nodes := WidgetTree.nodes_eq whole
  have control : (c.addControl p).nodes.filter WidgetTree.isRepeated = [] := rfl
  rw [nodes, List.flatMap_append, List.flatMap_singleton, ← List.cons_append, List.filter_append,
    control, List.append_nil]
  rfl

/-- A compilation makes sure of the repeated fields of its tree, and of nothing else. -/
theorem visits_of_node (hok : node c t name p h input s = .ok (tree, t')) :
    ∃ visits, t' = t.visitAll visits ∧ Meets tree input tree.nodes visits := by
  have all : MeetsFields c s := by
    refine Schema.induct ?_ s
    intro s properties items _ t t' name p h input tree hok
    cases hr : s.role h with
    | single =>
        obtain ⟨rfl, w, rfl, -, shows⟩ := node_single hok hr
        have alone : (WidgetTree.node w []).isRepeated = false := by
          cases hk : w.kind <;> cases shows <;> simp_all [WidgetTree.isRepeated, WidgetTree.widget,
            Widget.Kind.isInput]
        refine ⟨[], rfl, (Meets.nil _ input).among ?_⟩
        rw [WidgetTree.nodes_eq, List.filter_cons_of_neg (by simp [alone])]
        rfl
    | group ps required =>
        exact group_meets (properties ps (Schema.properties_of_group hr)) hr hok
    | repeated i => exact repeated_meets (items i (Schema.items_of_repeated hr)) hr hok
  exact all hok

end Compile
end FormTree
