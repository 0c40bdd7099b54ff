import FormTree.Proofs.Compile.Keys
import FormTree.Proofs.Repeat.Exact
import FormTree.Proofs.Repeat.History

/-!
The compilations inside a compilation, one for each property of a group and one
for the element of each item. All of them start from tables in order. So the
records of a table that can be reached stand for plain lists of indices, and the
number in the title of an item is never too great.
-/

namespace FormTree
namespace Compile

/-- The compilation of a node, by what it starts from. -/
structure Call where
  table : RepeatTable
  name : String
  path : Path
  hint : Hint
  input : Option Json
  schema : Schema

namespace Call

def run (c : Context) (call : Call) : Outcome :=
  node c call.table call.name call.path call.hint call.input call.schema

/-- The compilation of a whole form. -/
def ofForm (root : Path) (d : SchemaDocument) (h : Hint) (input : Option Json) (t : RepeatTable) :
    Call :=
  ⟨t, (root.getLast?.map Segment.key).getD "", root, h, input, d.root⟩

end Call

/-- A repeated field comes to the element of the item under an index, after the items before. -/
inductive Element (c : Context) (i : Nat) : Call → Call → Prop
  | element {t u : RepeatTable} {name : String} {p : Path} {h : Hint} {input : Option Json}
      {s items : Schema} {key : FieldKey} {taken rest : List Nat} {children : List WidgetTree}
      (shallow : ¬c.options.maxDepth < c.depth p) (role : s.role h = .repeated items)
      (field : FieldKey.ofPath? (c.schemaPath p) = some key)
      (inUse : (t.ensured key (itemCount input) p).indices = taken ++ i :: rest)
      (before : forItems (c.item p (c.scaffold s name p h none).title h input items) 0 taken
        (t.ensure key (itemCount input) p) = .ok (children, u)) :
      Element c i ⟨t, name, p, h, input, s⟩
        ⟨u, toString i, p ++ [.index i, .wrapper], h.item, itemInput input taken.length i, items⟩

/-- A compilation comes to one for a node below. -/
inductive Calls (c : Context) : Call → Call → Prop
  | property {t u : RepeatTable} {name : String} {p : Path} {h : Hint} {input : Option Json}
      {s : Schema} {taken rest : List (String × Schema)} {m : String × Schema}
      {required : List String} {children : List WidgetTree}
      (shallow : ¬c.options.maxDepth < c.depth p)
      (role : s.role h = .group (taken ++ m :: rest) required)
      (before : members c t p h input required taken = .ok (children, u)) :
      Calls c ⟨t, name, p, h, input, s⟩
        ⟨u, m.1, p ++ [.property m.1], h.child m.1, input.bind (·.member? m.1), m.2⟩
  | element {i : Nat} {call next : Call} (element : Element c i call next) : Calls c call next

/-- A compilation makes the title of an item with a given index, once the element of the item is
compiled. -/
def Titles (c : Context) (call : Call) (i : Nat) : Prop :=
  ∃ field element outcome, Relation.ReflTransGen (Calls c) call field ∧
    Element c i field element ∧ element.run c = .ok outcome

variable {c : Context} {i : Nat} {call next : Call}

theorem Element.ensured (h : Element c i call next) : call.table.Ensured next.table := by
  cases h with
  | @element _ _ _ _ _ input _ _ _ _ _ _ _ _ _ _ before =>
      exact .head (.ensure (itemCount_le input) _) (ensured_of_forItems before)

theorem Calls.ensured (h : Calls c call next) : call.table.Ensured next.table := by
  cases h with
  | property _ _ before => exact ensured_of_members before
  | element element => exact element.ensured

theorem ensured_of_calls (h : Relation.ReflTransGen (Calls c) call next) :
    call.table.Ensured next.table := by
  induction h with
  | refl => exact .refl
  | tail _ step ih => exact ih.trans step.ensured

theorem Element.index_lt (h : Element c i call next) (inOrder : call.table.InOrder) :
    i < maxIndex := by
  cases h with
  | @element t _ _ p _ input _ _ key _ _ _ _ _ _ inUse _ =>
      have record := RepeatTable.inOrder_ensured inOrder (itemCount_le input) key p
      have used : i ∈ (t.ensured key (itemCount input) p).indices := by
        rw [inUse]
        exact List.mem_append_right _ List.mem_cons_self
      exact Nat.lt_of_lt_of_le (record.below i used) record.fits

theorem Titles.index_lt (h : Titles c call i) (inOrder : call.table.InOrder) : i < maxIndex := by
  obtain ⟨field, element, -, calls, here, -⟩ := h
  exact here.index_lt ((ensured_of_calls calls).inOrder inOrder)

theorem Titles.below (h : Titles c next i) (step : Calls c call next) : Titles c call i := by
  obtain ⟨field, element, outcome, calls, here, run⟩ := h
  exact ⟨field, element, outcome, .head step calls, here, run⟩

/-- What compiles has an item in its tree only where the title of an item was made. -/
private def TitlesItems (c : Context) (s : Schema) : Prop :=
  ∀ ⦃t t' name p h input tree⦄, node c t name p h input s = .ok (tree, t') →
    ∀ n ∈ tree.nodes, n.widget.kind = .removableItem →
      ∃ i, n.widget.name = toString i ∧ Titles c ⟨t, name, p, h, input, s⟩ i

private theorem map_fst_split {α β : Type} {rows : List (α × β)} {n : Nat} {r : α × β}
    (hr : rows[n]? = some r) :
    rows.map Prod.fst = (rows.take n).map Prod.fst ++ r.1 :: (rows.drop (n + 1)).map Prod.fst := by
  obtain ⟨hn, rfl⟩ := List.getElem?_eq_some_iff.1 hr
  rw [← List.map_cons, ← List.map_append, List.getElem_cons_drop, List.take_append_drop]

section Items

variable {t t' : RepeatTable} {name : String} {p : Path} {h : Hint} {input : Option Json}
  {s : Schema} {tree n : WidgetTree}

private theorem group_titles {properties : List (String × Schema)} {required : List String}
    (below : ∀ m ∈ properties, TitlesItems c m.2) (hok : node c t name p h input s = .ok (tree, t'))
    (hr : s.role h = .group properties required) (hn : n ∈ tree.nodes)
    (item : n.widget.kind = .removableItem) :
    ∃ i, n.widget.name = toString i ∧ Titles c ⟨t, name, p, h, input, s⟩ i := by
  obtain ⟨w, children, rfl, -, kind, hmembers⟩ := node_group hok hr
  obtain ⟨rows, rfl, rfl, inTurn⟩ := (members_ok_iff 0).1 hmembers
  rcases exists_of_mem_group hn with rfl | ⟨r, hmem, m, hm, same⟩
  · exact absurd (kind.symm.trans item) nofun
  · obtain ⟨place, hplace⟩ := List.mem_iff_getElem?.1 hmem
    obtain ⟨u, v, earlier, run⟩ := inTurn.before hplace
    have before : members c t p h input required _ = .ok (_, u) :=
      (members_ok_iff 0).2 ⟨_, rfl, rfl, earlier⟩
    rw [map_fst_split hplace] at hr
    obtain ⟨i, name, titles⟩ := below r.1 (List.mem_map_of_mem hmem) run m hm
      (same.kind.symm.trans item)
    exact ⟨i, same.name.trans name, titles.below (.property (node_depth hok) hr before)⟩

private theorem repeated_titles {items : Schema} (below : TitlesItems c items)
    (hok : node c t name p h input s = .ok (tree, t')) (hr : s.role h = .repeated items)
    (hn : n ∈ tree.nodes) (item : n.widget.kind = .removableItem) :
    ∃ i, n.widget.name = toString i ∧ Titles c ⟨t, name, p, h, input, s⟩ i := by
  have shallow := node_depth hok
  obtain ⟨key, _, _, _, field, -⟩ := node_repeated hok hr
  rw [node_repeated_eq shallow hr field] at hok
  obtain ⟨⟨children, u⟩, hitems, hok⟩ := bind_eq_ok.1 hok
  cases hok
  obtain ⟨rows, all, rfl, inTurn⟩ := forItems_ok_iff.1 hitems
  rcases cases_of_mem_repeatable rfl hn (by rw [item]; rfl) with rfl | ⟨r, hmem, inside⟩
  · cases item
  · obtain ⟨place, hplace⟩ := List.mem_iff_getElem?.1 hmem
    obtain ⟨v, v', earlier, run⟩ := inTurn.before hplace
    rw [map_fst_split hplace] at all
    have taken : ((rows.take place).map Prod.fst).length = place := by
      rw [List.length_map, List.length_take]
      exact Nat.min_eq_left (Nat.le_of_lt (List.getElem?_eq_some_iff.1 hplace).1)
    have element : Element c r.1 ⟨t, name, p, h, input, s⟩ _ :=
      .element shallow hr field all.symm (forItems_ok_iff.2 ⟨_, rfl, rfl, earlier⟩)
    rw [taken] at element
    rw [Nat.zero_add] at run
    rcases inside with rfl | ⟨m, hm, same⟩
    · obtain ⟨_, -, wrapped, -⟩ := wrapItem_eq c p (c.scaffold s name p h none).title r.1 r.2
      exact ⟨r.1, wrapped.name, _, _, _, .refl, element, run⟩
    · obtain ⟨i, name, titles⟩ := below run m hm (same.kind.symm.trans item)
      exact ⟨i, same.name.trans name, titles.below (.element element)⟩

end Items

private theorem titlesItems (c : Context) (s : Schema) : TitlesItems c s := by
  refine Schema.induct ?_ s
  intro s properties items _ t t' name p h input tree hok n hn item
  cases hr : s.role h with
  | single =>
      obtain ⟨-, w, rfl, -, shows⟩ := node_single hok hr
      obtain rfl : n = .node w [] := by simpa [WidgetTree.nodes_node] using hn
      change w.kind = _ at item
      cases shows with
      | constant markup _ => exact absurd (markup.symm.trans item) nofun
      | entered input _ => rw [item] at input; cases input
  | group ps required =>
      exact group_titles (properties ps (Schema.properties_of_group hr)) hok hr hn item
  | repeated i => exact repeated_titles (items i (Schema.items_of_repeated hr)) hok hr hn item

end Compile

open Compile (Call Titles)

namespace RepeatTable

/-- In a table that can be reached, every record is in order, and what is done with it is what
would be done with the list of its indices. A compilation, whether it succeeds or not, makes titles
only of items whose numbers fit 64 bits, and the items of a form are among them. -/
theorem reachable_table_exact {t : RepeatTable} (reachable : t.Reachable) :
    (∀ k, t.Exact k) ∧ ∀ options root d h input,
      (∀ i, Titles ⟨options, root⟩ (.ofForm root d h input t) i → i + 1 ≤ maxIndex) ∧
        ∀ form, compileForm options root d h input t = .ok form →
          ∀ n ∈ form.tree.nodes, n.widget.kind = .removableItem → ∃ i,
            n.widget.name = toString i ∧ Titles ⟨options, root⟩ (.ofForm root d h input t) i := by
  refine ⟨exact_of_inOrder reachable.inOrder, fun options root d h input => ⟨?_, ?_⟩⟩
  · exact fun i titles => titles.index_lt reachable.inOrder
  · intro form hok
    obtain ⟨⟨tree, u⟩, hnode, hok⟩ := bind_eq_ok.1 hok
    cases hok
    exact Compile.titlesItems _ _ hnode

/-- Rows whose mark has come to the end, after the last index that there is. -/
private def lastRows : RepeatTable :=
  ⟨SortedMap.empty.insert .rows ⟨[0, maxIndex - 1], maxIndex, []⟩, false⟩

private theorem lastRows_reachable : lastRows.Reachable := by
  have same : RepeatTable.empty.set .rows ⟨[0, maxIndex - 1], maxIndex, []⟩ = lastRows :=
    set_of_inOrder _ _ (by decide)
  exact same ▸ .set .rows (Nat.le_refl _) .empty

private theorem compileRows_last :
    (compileRows (some listsOfTexts) lastRows).map (fun form => form.tree.nodes.any fun n =>
      n.widget.kind = .removableItem ∧ n.widget.name = toString (maxIndex - 1)) = .ok true := by
  decide +kernel

/-- The title of the last item that there can be is made, and no item can be added after it. -/
theorem reachable_table_exact_at_end :
    lastRows.Reachable ∧ lastRows.add? .rows = none ∧
      Titles ⟨{}, [.property "form"]⟩
        (.ofForm [.property "form"] rowsOfTexts {} (some listsOfTexts) lastRows) (maxIndex - 1) ∧
      (∀ k, lastRows.Exact k) ∧ ∀ options root d h input,
        (∀ i, Titles ⟨options, root⟩ (.ofForm root d h input lastRows) i → i + 1 ≤ maxIndex) ∧
          ∀ form, compileForm options root d h input lastRows = .ok form →
            ∀ n ∈ form.tree.nodes, n.widget.kind = .removableItem → ∃ i,
              n.widget.name = toString i ∧
                Titles ⟨options, root⟩ (.ofForm root d h input lastRows) i := by
  obtain ⟨exact, titles⟩ := reachable_table_exact lastRows_reachable
  refine ⟨lastRows_reachable, rfl, ?_, exact, titles⟩
  have last := compileRows_last
  cases hok : compileRows (some listsOfTexts) lastRows with
  | error e => rw [hok] at last; cases last
  | ok form =>
      rw [hok] at last
      obtain ⟨n, hn, item⟩ := List.any_eq_true.1 (Except.ok.inj last)
      obtain ⟨kind, name⟩ := of_decide_eq_true item
      obtain ⟨i, name', here⟩ := (titles _ _ _ _ _).2 form hok n hn kind
      exact Pointer.toString_injective (name.symm.trans name') ▸ here

end RepeatTable
end FormTree
