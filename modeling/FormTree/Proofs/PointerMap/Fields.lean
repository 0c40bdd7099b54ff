import FormTree.Proofs.PointerMap.Recording
import FormTree.Proofs.Widget.Fields

/-!
The pointers of a form. In a layout the entries settle to one for each field, and
its pointer is made of tokens that lead to the field. So the map of the form is a
bijection between pointers and fields.
-/

namespace FormTree

open WidgetTree (At IsControl IsItem Layout Row)

namespace PointerMap

/-- Wrappers and controls aside, a node is a field. -/
def isField (n : WidgetTree) : Bool := !n.widget.kind.isStructural

/-- Entries settle to one for each field among some nodes, under tokens that lead there. -/
structure Leaves (t : WidgetTree) (tokens : List String) (nodes : List WidgetTree)
    (entries left : List (String × Path)) : Prop where
  settles : Settles entries left
  paths : left.map Prod.snd = (nodes.filter isField).map WidgetTree.path
  reached : ∀ e ∈ left, ∃ rel ts n,
    At t rel ts n ∧ e = (Pointer.join (tokens ++ ts), n.path)

section Parts

variable {t : WidgetTree} {tokens : List String} {place : Nat}

theorem pairs_eq (tokens : List String) (t : WidgetTree) :
    pairs tokens t =
      (Pointer.join tokens, t.path) :: pairsOf tokens t.widget.kind 0 t.children := by
  cases t
  rfl

theorem pairsOf_control {parent : Widget.Kind} {rest : List WidgetTree}
    (h : t.widget.kind.isControl = true) :
    pairsOf tokens parent place (t :: rest) = pairsOf tokens parent place rest := by
  cases t
  exact if_pos h

theorem pairsOf_cons {parent : Widget.Kind} {rest : List WidgetTree}
    (h : t.widget.kind.isControl = false) :
    pairsOf tokens parent place (t :: rest) =
      pairs (tokens ++ (token? parent place t.widget).toList) t ++
        pairsOf tokens parent (if countsAsItem parent t.widget then place + 1 else place) rest := by
  cases t
  exact if_neg (Bool.eq_false_iff.1 h)

private theorem Leaves.nil : Leaves t tokens [] [] [] := ⟨.nil, rfl, nofun⟩

private theorem Leaves.append {nodes nodes' : List WidgetTree}
    {entries entries' left left' : List (String × Path)} (h : Leaves t tokens nodes entries left)
    (h' : Leaves t tokens nodes' entries' left') :
    Leaves t tokens (nodes ++ nodes') (entries ++ entries') (left ++ left') := by
  refine ⟨h.settles.append h'.settles, ?_, ?_⟩
  · rw [List.map_append, h.paths, h'.paths, List.filter_append, List.map_append]
  · intro e he
    rcases List.mem_append.1 he with he | he
    · exact h.reached e he
    · exact h'.reached e he

private theorem Leaves.lift {child : WidgetTree} {token : String} {nodes : List WidgetTree}
    {entries left : List (String × Path)} (h : Leaves child (tokens ++ [token]) nodes entries left)
    (step : ∀ {rel ts n}, At child rel ts n → ∃ rel', At t rel' (token :: ts) n) :
    Leaves t tokens nodes entries left := by
  refine ⟨h.settles, h.paths, ?_⟩
  intro e he
  obtain ⟨rel, ts, n, hat, rfl⟩ := h.reached e he
  obtain ⟨rel', hat'⟩ := step hat
  exact ⟨rel', token :: ts, n, hat', by rw [List.append_assoc]; rfl⟩

theorem Leaves.root (hfield : isField t = true) {nodes : List WidgetTree}
    {entries left : List (String × Path)} (h : Leaves t tokens nodes entries left) :
    Leaves t tokens (t :: nodes) ((Pointer.join tokens, t.path) :: entries)
      ((Pointer.join tokens, t.path) :: left) := by
  refine ⟨.keep h.settles, ?_, List.forall_mem_cons.2 ⟨?_, h.reached⟩⟩
  · rw [List.filter_cons_of_pos hfield, List.map_cons, List.map_cons, h.paths]
  · exact ⟨[], [], t, .here t, by rw [List.append_nil]⟩

/-- An entry that comes just before the one of a field, with its pointer, goes. -/
private theorem Leaves.covered {nodes nodes' : List WidgetTree}
    {entries left : List (String × Path)} {pointer : String} {p : Path}
    (h : Leaves t tokens nodes ((pointer, t.path) :: entries) ((pointer, t.path) :: left))
    (settles : Settles entries left) (same : nodes'.filter isField = nodes.filter isField) :
    Leaves t tokens nodes' ((pointer, p) :: (pointer, t.path) :: entries)
      ((pointer, t.path) :: left) :=
  ⟨.replace settles, same ▸ h.paths, h.reached⟩

private theorem pairsOf_concat_control {parent : Widget.Kind} {add : WidgetTree}
    (h : add.widget.kind.isControl = true) (children : List WidgetTree) :
    pairsOf tokens parent place (children ++ [add]) = pairsOf tokens parent place children := by
  induction children generalizing place with
  | nil => rw [List.nil_append, pairsOf_control h]
  | cons child children ih =>
      rw [List.cons_append]
      cases hc : child.widget.kind.isControl with
      | true => rw [pairsOf_control hc, pairsOf_control hc, ih]
      | false => rw [pairsOf_cons hc, pairsOf_cons hc, ih]

private theorem not_isControl {kind : Widget.Kind} (h : kind.isStructural = false) :
    kind.isControl = false := by
  cases kind <;> first | rfl | cases h

private theorem group_leaves (kind : t.widget.kind = .group) {rows : List (String × WidgetTree)}
    (held : ∀ r ∈ rows, r.2 ∈ t.children ∧ r.2.path = t.path ++ [.property r.1] ∧
      r.2.widget.kind.isStructural = false)
    (below : ∀ r ∈ rows, ∀ tokens, ∃ left, Leaves r.2 tokens r.2.nodes (pairs tokens r.2) left) :
    ∃ left, Leaves t tokens ((rows.map Prod.snd).flatMap WidgetTree.nodes)
      (pairsOf tokens .group place (rows.map Prod.snd)) left := by
  induction rows with
  | nil => exact ⟨[], .nil⟩
  | cons r rows ih =>
      obtain ⟨inside, path, field⟩ := held r List.mem_cons_self
      obtain ⟨first, hfirst⟩ := below r List.mem_cons_self (tokens ++ [r.1])
      obtain ⟨rest, hrest⟩ := ih (fun r hr => held r (List.mem_cons_of_mem _ hr))
        (fun r hr => below r (List.mem_cons_of_mem _ hr))
      have token : token? .group place r.2.widget = some r.1 := by
        have last : r.2.widget.path.getLast? = some (.property r.1) := by
          change r.2.path.getLast? = _
          rw [path, List.getLast?_concat]
        rw [token?, last]
      have entries : pairsOf tokens .group place ((r :: rows).map Prod.snd) =
          pairs (tokens ++ [r.1]) r.2 ++ pairsOf tokens .group place (rows.map Prod.snd) := by
        rw [List.map_cons, pairsOf_cons (not_isControl field), token]
        rfl
      rw [entries]
      exact ⟨_, (hfirst.lift fun hat => ⟨_, .property kind inside path hat⟩).append hrest⟩

/-- The entry of a wrapper goes where the one of its element comes. -/
private theorem item_leaves (kind : t.widget.kind = .repeatable) {r : Row}
    (held : t.children[place]? = some r.item) (wrapped : IsItem t.path r.index r.element r.item)
    (field : r.element.widget.kind.isStructural = false)
    (path : r.element.path = t.path ++ [.index r.index, .wrapper])
    (below : ∀ tokens, ∃ left, Leaves r.element tokens
      (r.element.children.flatMap WidgetTree.nodes)
      (pairsOf tokens r.element.widget.kind 0 r.element.children) left) :
    ∃ left, Leaves t tokens r.item.nodes (pairs (tokens ++ [toString place]) r.item) left := by
  obtain ⟨left, hleft⟩ := below (tokens ++ [toString place])
  obtain ⟨control, hcontrol, hchildren⟩ := wrapped.children
  have token : token? .removableItem 0 r.element.widget = none := by
    have last : r.element.widget.path.getLast? = some .wrapper := by
      change r.element.path.getLast? = _
      rw [path]
      simp
    rw [token?, last]
  have entries : pairs (tokens ++ [toString place]) r.item =
      (Pointer.join (tokens ++ [toString place]), r.item.path) ::
        pairs (tokens ++ [toString place]) r.element := by
    rw [pairs_eq, hchildren, wrapped.kind, pairsOf_cons (not_isControl field), token,
      pairsOf_control hcontrol.isControl]
    simp [pairsOf]
  have nodes : r.item.nodes.filter isField = r.element.nodes.filter isField := by
    have wrapper : isField r.item = false := by rw [isField, wrapped.kind]; rfl
    have remove : isField control = false := by rw [isField, hcontrol.not_field]; rfl
    rw [WidgetTree.nodes_eq r.item, hchildren, List.filter_cons, wrapper, List.flatMap_cons,
      List.flatMap_singleton, hcontrol.nodes, List.filter_append, List.filter_singleton, remove]
    simp
  have root := hleft.root (by rw [isField, field]; rfl)
  rw [entries, pairs_eq]
  rw [← WidgetTree.nodes_eq] at root
  exact ⟨_, (root.covered hleft.settles nodes).lift fun hat => ⟨_, .item kind held wrapped hat⟩⟩

private theorem repeated_leaves (kind : t.widget.kind = .repeatable) {rows : List Row}
    (held : ∀ n r, rows[n]? = some r → t.children[place + n]? = some r.item)
    (wrapped : ∀ r ∈ rows, IsItem t.path r.index r.element r.item ∧
      Layout (t.path ++ [.index r.index, .wrapper]) r.element)
    (below : ∀ r ∈ rows, ∀ tokens, ∃ left, Leaves r.element tokens
      (r.element.children.flatMap WidgetTree.nodes)
      (pairsOf tokens r.element.widget.kind 0 r.element.children) left) :
    ∃ left, Leaves t tokens ((rows.map Row.item).flatMap WidgetTree.nodes)
      (pairsOf tokens .repeatable place (rows.map Row.item)) left := by
  induction rows generalizing place with
  | nil => exact ⟨[], .nil⟩
  | cons r rows ih =>
      obtain ⟨hitem, hlayout⟩ := wrapped r List.mem_cons_self
      obtain ⟨first, hfirst⟩ := item_leaves kind (held 0 r rfl) hitem hlayout.isField hlayout.path
        (below r List.mem_cons_self)
      have later : ∀ n r, rows[n]? = some r → t.children[place + 1 + n]? = some r.item := by
        intro n r hr
        rw [Nat.add_right_comm]
        exact held (n + 1) r hr
      obtain ⟨rest, hrest⟩ := ih later (fun r hr => wrapped r (List.mem_cons_of_mem _ hr))
        (fun r hr => below r (List.mem_cons_of_mem _ hr))
      have last : r.item.widget.path.getLast? = some (.index r.index) := by
        change r.item.path.getLast? = _
        rw [hitem.path, List.getLast?_concat]
      have token : token? .repeatable place r.item.widget = some (toString place) := by
        rw [token?, last]
        rfl
      have counts : countsAsItem .repeatable r.item.widget = true := by
        rw [countsAsItem, last]
        rfl
      have entries : pairsOf tokens .repeatable place ((r :: rows).map Row.item) =
          pairs (tokens ++ [toString place]) r.item ++
            pairsOf tokens .repeatable (place + 1) (rows.map Row.item) := by
        rw [List.map_cons, pairsOf_cons (by rw [hitem.kind]; rfl), token, if_pos counts]
        rfl
      rw [entries]
      exact ⟨_, hfirst.append hrest⟩

end Parts

/-- The entries below a tree settle to those of the fields below. -/
theorem leaves_of_layout {p : Path} {t : WidgetTree} (h : Layout p t) (tokens : List String) :
    ∃ left, Leaves t tokens (t.children.flatMap WidgetTree.nodes)
      (pairsOf tokens t.widget.kind 0 t.children) left := by
  induction h generalizing tokens with
  | single => exact ⟨[], .nil⟩
  | @group p w rows path kind nodup below ih =>
      change ∃ left, Leaves _ tokens ((rows.map Prod.snd).flatMap WidgetTree.nodes)
        (pairsOf tokens w.kind 0 (rows.map Prod.snd)) left
      have group : (WidgetTree.node w (rows.map Prod.snd)).widget.kind = .group := kind
      rw [kind]
      refine group_leaves group ?_ ?_
      · intro r hr
        have childPath : r.2.path = w.path ++ [.property r.1] := path ▸ (below r hr).path
        exact ⟨List.mem_map_of_mem hr, childPath, (below r hr).isField⟩
      · intro r hr tokens
        obtain ⟨left, hleft⟩ := ih r hr tokens
        rw [pairs_eq, WidgetTree.nodes_eq]
        exact ⟨_, hleft.root (by rw [isField, (below r hr).isField]; rfl)⟩
  | @repeated p w rows add path kind nodup items below control ih =>
      have repeated : (WidgetTree.node w (rows.map Row.item ++ [add])).widget.kind =
          .repeatable := kind
      obtain ⟨left, hleft⟩ : ∃ left, Leaves (.node w (rows.map Row.item ++ [add])) tokens
          ((rows.map Row.item).flatMap WidgetTree.nodes)
          (pairsOf tokens .repeatable 0 (rows.map Row.item)) left := by
        refine repeated_leaves repeated ?_ ?_ ih
        · intro n r hr
          rw [Nat.zero_add]
          change (rows.map Row.item ++ [add])[n]? = some r.item
          have hmap : (rows.map Row.item)[n]? = some r.item := by rw [List.getElem?_map, hr]; rfl
          have hlt := (List.getElem?_eq_some_iff.1 hmap).1
          rw [List.getElem?_append_left hlt, hmap]
        · intro r hr
          change IsItem w.path _ _ _ ∧ Layout (w.path ++ _) _
          rw [path]
          exact ⟨items r hr, below r hr⟩
      refine ⟨left, ?_, ?_, hleft.reached⟩
      · change Settles (pairsOf tokens w.kind 0 (rows.map Row.item ++ [add])) left
        rw [kind, pairsOf_concat_control control.isControl]
        exact hleft.settles
      · change left.map Prod.snd =
          (((rows.map Row.item ++ [add]).flatMap WidgetTree.nodes).filter isField).map _
        have gone : isField add = false := by rw [isField, control.not_field]; rfl
        rw [List.flatMap_append, List.flatMap_singleton, control.nodes, List.filter_append,
          List.filter_singleton, gone]
        simpa using hleft.paths

end PointerMap
end FormTree
