import FormTree.Proofs.Compile.Keys

/-!
Settled trees. A tree is settled under a table that has a record for each of its
repeated fields, at its place, and with its items. What compiles is settled under
a table that the compilation leads to, and a settled tree is what its own table
compiles to, without a change of the table.
-/

namespace FormTree

open WidgetTree (IsItem Retouched)

namespace Compile

inductive Settled (c : Context) (T : RepeatTable) :
    String → Path → Hint → Option Json → Schema → WidgetTree → Prop
  | single {name : String} {p : Path} {h : Hint} {input : Option Json} {s : Schema}
      {tree : WidgetTree} (role : s.role h = .single)
      (built : ∀ t, node c t name p h input s = .ok (tree, t)) :
      Settled c T name p h input s tree
  | group {name : String} {p : Path} {h : Hint} {input : Option Json} {s : Schema}
      {properties : List (String × Schema)} {required : List String}
      {rows : List ((String × Schema) × WidgetTree)} (role : s.role h = .group properties required)
      (depth : ¬c.options.maxDepth < c.depth p) (all : rows.map Prod.fst = properties)
      (below : ∀ r ∈ rows, Settled c T r.1.1 (p ++ [.property r.1.1]) (h.child r.1.1)
        (input.bind (·.member? r.1.1)) r.1.2 r.2) :
      Settled c T name p h input s
        (.node (c.groupWidget s name p h) (rows.map (heldProperty required)))
  | repeated {name : String} {p : Path} {h : Hint} {input : Option Json} {s items : Schema}
      {key : FieldKey} {live : LiveItems} {rows : List (Nat × WidgetTree)}
      (role : s.role h = .repeated items) (depth : ¬c.options.maxDepth < c.depth p)
      (field : FieldKey.ofPath? (c.schemaPath p) = some key) (known : T.find? key = some live)
      (location : live.location = p) (all : rows.map Prod.fst = live.indices)
      (below : ∀ n r, rows[n]? = some r → Settled c T (toString r.1)
        (p ++ [.index r.1, .wrapper]) h.item (itemInput input n r.1) items r.2) :
      Settled c T name p h input s
        (c.repeatable h (c.scaffold s name p h none) live
          (rows.map (c.heldItem p (c.scaffold s name p h none).title)))

variable {c : Context} {t t' T : RepeatTable} {name : String} {p : Path} {h : Hint}
  {input : Option Json} {s : Schema} {tree : WidgetTree}

/-- Every record of a field of the tree is at the place of the field. -/
def Locates (T : RepeatTable) (tree : WidgetTree) : Prop :=
  ∀ n ∈ tree.nodes, n.widget.kind = .repeatable →
    ∀ k, FieldKey.ofPath? n.widget.propPath = some k → T.location? k = some n.path

theorem Locates.inside {child : WidgetTree} (located : Locates T tree)
    (held : ∀ n ∈ child.nodes, ∃ m ∈ tree.nodes, Retouched n m) : Locates T child := by
  intro n hn kind k key
  obtain ⟨m, hm, same⟩ := held n hn
  rw [← same.kind] at kind
  rw [← same.propPath] at key
  rw [← same.path]
  exact located m hm kind k key

theorem grows_of_node (hok : node c t name p h input s = .ok (tree, t')) : t.Grows t' := by
  obtain ⟨visits, rfl, -⟩ := visits_of_node hok
  exact RepeatTable.grows_visitAll t visits

/-- Of a row compiled in turn, the last table is a later one. -/
private theorem InTurn.exists_node {α : Type} {f : Nat → α → RepeatTable → Outcome}
    {rows : List (α × WidgetTree)} (inTurn : InTurn f 0 rows t t')
    (grows : ∀ n a t tree u, f n a t = .ok (tree, u) → t.Grows u) {n : Nat} {r : α × WidgetTree}
    (hr : rows[n]? = some r) : ∃ u v, f n r.1 u = .ok (r.2, v) ∧ v.Grows t' := by
  obtain ⟨u, v, first, later⟩ := inTurn.row RepeatTable.grows_refl (fun _ _ _ => .trans)
    (fun n r _ t u => grows (0 + n) r.1 t r.2 u) hr
  rw [Nat.zero_add] at first
  exact ⟨u, v, first, later⟩

private def Settles (c : Context) (T : RepeatTable) (s : Schema) : Prop :=
  ∀ ⦃t t' name p h input tree⦄, node c t name p h input s = .ok (tree, t') → t'.Grows T →
    Locates T tree → Settled c T name p h input s tree

private theorem group_settles {properties : List (String × Schema)} {required : List String}
    (below : ∀ m ∈ properties, Settles c T m.2) (hr : s.role h = .group properties required)
    (hok : node c t name p h input s = .ok (tree, t')) (grows : t'.Grows T)
    (located : Locates T tree) : Settled c T name p h input s tree := by
  have hd := node_depth hok
  rw [node_group_eq hd hr] at hok
  obtain ⟨⟨children, u⟩, hmembers, hok⟩ := bind_eq_ok.1 hok
  cases hok
  obtain ⟨rows, rfl, rfl, inTurn⟩ := (members_ok_iff 0).1 hmembers
  refine .group hr hd rfl ?_
  intro r hr
  obtain ⟨n, hn⟩ := List.mem_iff_getElem?.1 hr
  obtain ⟨u, v, first, later⟩ := inTurn.exists_node (fun _ _ _ _ _ => grows_of_node) hn
  apply below r.1 (List.mem_map_of_mem hr) first (later.trans grows)
  exact located.inside fun m => exists_mem_group hr

theorem repeatable_congr {w : Widget} {live live' : LiveItems} {items : List WidgetTree}
    (same : live.indices = live'.indices) :
    c.repeatable h w live items = c.repeatable h w live' items := by
  rw [Context.repeatable, Context.repeatable, LiveItems.max?, LiveItems.max?, same]

private theorem repeated_settles {items : Schema} (below : Settles c T items)
    (hr : s.role h = .repeated items) (hok : node c t name p h input s = .ok (tree, t'))
    (grows : t'.Grows T) (located : Locates T tree) : Settled c T name p h input s tree := by
  have hd := node_depth hok
  obtain ⟨key, -, -, -, field, -⟩ := node_repeated hok hr
  rw [node_repeated_eq hd hr field] at hok
  obtain ⟨⟨children, u⟩, hitems, hok⟩ := bind_eq_ok.1 hok
  cases hok
  obtain ⟨rows, all, rfl, inTurn⟩ := forItems_ok_iff.1 hitems
  have growth : (t.ensure key (itemCount input) p).Grows T := by
    refine RepeatTable.Grows.trans ?_ grows
    refine inTurn.table RepeatTable.grows_refl (fun _ _ _ => .trans) ?_
    exact fun _ _ _ _ _ => grows_of_node
  have made : (t.ensure key (itemCount input) p).find? key =
      some (t.ensured key (itemCount input) p) := by
    rw [RepeatTable.find?_ensure, if_pos rfl]
  obtain ⟨live, known, indices, -⟩ := growth key _ made
  have location : live.location = p := by
    have here := located _ (WidgetTree.mem_nodes_self _) rfl key field
    rw [RepeatTable.location?, known] at here
    exact Option.some.inj here
  rw [repeatable_congr indices.symm]
  refine .repeated hr hd field known location (all.trans indices.symm) ?_
  intro n r hr
  obtain ⟨u, v, first, later⟩ := inTurn.exists_node (fun _ _ _ _ _ => grows_of_node) hr
  apply below first (later.trans grows)
  exact located.inside fun m => exists_mem_repeatable (List.mem_of_getElem? hr)

/-- What compiles is settled under every table that comes from the one handed on. -/
theorem settled_of_node (hok : node c t name p h input s = .ok (tree, t')) (grows : t'.Grows T)
    (located : Locates T tree) : Settled c T name p h input s tree := by
  have all : Settles c T s := by
    refine Schema.induct ?_ s
    intro s properties items _ t t' name p h input tree hok grows located
    cases hr : s.role h with
    | single =>
        obtain ⟨w, built, -⟩ := node_single_eq hok hr
        rw [built t input] at hok
        cases hok
        exact .single hr fun u => built u input
    | group ps required =>
        exact group_settles (properties ps (Schema.properties_of_group hr)) hr hok grows located
    | repeated i =>
        exact repeated_settles (items i (Schema.items_of_repeated hr)) hr hok grows located
  exact all hok grows located

/-- A settled tree is compiled from its own table, and the table stays as it is. -/
theorem Settled.node (settled : Settled c T name p h input s tree) :
    Compile.node c T name p h input s = .ok (tree, T) := by
  induction settled with
  | single _ built => exact built T
  | @group name p h input s properties required rows role depth all _ ih =>
      rw [node_group_eq depth role]
      refine bind_eq_ok.2 ⟨(rows.map (heldProperty required), T), ?_, rfl⟩
      refine (members_ok_iff 0).2 ⟨rows, all, rfl, .of_each ?_⟩
      exact fun n r hr => ih r (List.mem_of_getElem? hr)
  | @repeated name p h input s items key live rows role depth field known location all _ ih =>
      subst location
      have same : T.ensured key (itemCount input) live.location = live := by
        rw [RepeatTable.ensured, known]
        rfl
      rw [node_repeated_eq depth role field, RepeatTable.ensure_eq_self known, same]
      refine bind_eq_ok.2 ⟨(rows.map (c.heldItem _ _), T), ?_, rfl⟩
      refine forItems_ok_iff.2 ⟨rows, all, rfl, .of_each ?_⟩
      intro n r hr
      rw [Nat.zero_add]
      exact ih n r hr

end Compile

section Form

variable {options : CompileOptions} {root : Path} {d : SchemaDocument} {h : Hint}
  {input : Option Json}

/-- A form is settled under the table that it leaves. -/
theorem settled_of_compileForm {t : RepeatTable} {form : CompiledForm} (accepted : d.Accepted)
    (reachable : t.Reachable) (hok : compileForm options root d h input t = .ok form) :
    Compile.Settled ⟨options, root⟩ form.table ((root.getLast?.map Segment.key).getD "") root h
      input d.root form.tree := by
  obtain ⟨visits, table, nodup, -, visited⟩ := visits_of_compileForm accepted reachable hok
  obtain ⟨⟨tree, u⟩, hnode, heq⟩ := bind_eq_ok.1 hok
  cases heq
  apply Compile.settled_of_node hnode (RepeatTable.grows_refl u)
  intro n hn kind k key
  obtain ⟨v, hv, location, key'⟩ := visited n hn kind
  cases key.symm.trans key'
  have record := RepeatTable.find?_visitAll (t := t) nodup hv
  rw [← table] at record
  rw [RepeatTable.location?, record, ← location]
  rfl

theorem compileForm_of_settled {T : RepeatTable} {tree : WidgetTree}
    (settled : Compile.Settled ⟨options, root⟩ T ((root.getLast?.map Segment.key).getD "") root h
      input d.root tree) : compileForm options root d h input T = .ok ⟨tree, T⟩ :=
  bind_eq_ok.2 ⟨(tree, T), settled.node, rfl⟩

end Form
end FormTree
