import FormTree.Proofs.Compile.Keys
import FormTree.Proofs.Schema.Depth

/-!
Compilations that cannot fail. Normalization leaves no node too deep and none
without the parts that its type asks for, so only a hint can ask for parts that are
not there.
-/

namespace FormTree

namespace Hint

/-- `P` holds of hints and of the hints for every part, at any depth. -/
inductive Everywhere (P : Hint → Prop) : Hint → Prop
  | node {h : Hint} (here : P h) (children : ∀ m ∈ h.children, Everywhere P m.2) : Everywhere P h

namespace Everywhere

variable {P : Hint → Prop} {h : Hint}

theorem here (hints : Everywhere P h) : P h := by
  cases hints; assumption

private theorem lookup (hints : Everywhere P h) {key : String} {h' : Hint}
    (found : h.children.lookup key = some h') : Everywhere P h' := by
  cases hints with
  | node _ children => exact children _ (mem_of_lookup found)

/-- What holds of hints holds of those for a child, if it holds where nothing but flags is set. -/
theorem child (hints : Everywhere P h) (flags : ∀ enabled visible, P { enabled, visible })
    (name : String) : Everywhere P (h.child name) := by
  rw [Hint.child]
  cases hc : h.children.lookup name with
  | none => exact .node (flags none none) nofun
  | some h' => exact hints.lookup hc

theorem item (hints : Everywhere P h) (flags : ∀ enabled visible, P { enabled, visible }) :
    Everywhere P h.item := by
  rw [Hint.item]
  cases hc : h.children.lookup itemsKey with
  | none => exact .node (flags h.enabled h.visible) nofun
  | some h' => exact hints.lookup hc

end Everywhere

/-- The hints name neither of the two types with parts as a widget. -/
def NamesNoParts (h : Hint) : Prop :=
  h.Everywhere fun h => h.widget ≠ some "array" ∧ h.widget ≠ some "object"

namespace NamesNoParts

variable {h : Hint}

theorem child (hints : h.NamesNoParts) (name : String) : (h.child name).NamesNoParts :=
  Everywhere.child hints (fun _ _ => ⟨nofun, nofun⟩) name

theorem item (hints : h.NamesNoParts) : h.item.NamesNoParts :=
  Everywhere.item hints fun _ _ => ⟨nofun, nofun⟩

/-- A node resolves to a type with parts only where the node itself says so. -/
theorem primary? (hints : h.NamesNoParts) {s : Schema} {t : JsonType}
    (parts : t = .array ∨ t = .object) (resolved : s.resolve h = .type t) :
    s.types.primary? = some t := by
  rw [Schema.resolve] at resolved
  split at resolved
  · next name named =>
    obtain ⟨noArray, noObject⟩ := hints.here
    split at resolved
    · next u hu =>
      cases resolved
      rw [JsonType.eq_name_of_ofName? hu] at named
      rcases parts with rfl | rfl
      · exact absurd named noArray
      · exact absurd named noObject
    · cases resolved
  · split at resolved
    · next u hu =>
      cases resolved
      exact hu
    · cases resolved

end NamesNoParts
end Hint

namespace Compile

variable {c : Context} {name : String} {p : Path} {h : Hint} {input : Option Json} {s : Schema}

/-- A widget that holds no others is made of every node that has the parts its type asks for. -/
private theorem exists_node_single (depth : ¬c.options.maxDepth < c.depth p)
    (hints : h.NamesNoParts) (typed : s.Typed) (hr : s.role h = .single) (t : RepeatTable) :
    ∃ tree t', node c t name p h input s = .ok (tree, t') := by
  have array (resolved : s.resolve h = .type .array) :=
    typed.array (hints.primary? (.inl rfl) resolved)
  have object (resolved : s.resolve h = .type .object) :=
    typed.object (hints.primary? (.inr rfl) resolved)
  rw [node_eq depth]
  rw [Schema.role] at hr
  dsimp only
  split
  · exact ⟨_, _, rfl⟩
  · exact ⟨_, _, rfl⟩
  · next items hs hres =>
    rw [hs, hres] at hr
    dsimp only at hr
    split at hr
    · next henum =>
      obtain ⟨values, hvalues⟩ := Option.isSome_iff_exists.1 henum
      rw [Context.repeated, hvalues]
      exact ⟨_, _, rfl⟩
    · cases hr
  · exact ⟨_, _, rfl⟩
  · next hs hres =>
    rw [hs, hres] at hr
    cases hr
  · next hs hres =>
    simp [Schema.isConst, Schema.enumValues?, Schema.properties?, hs] at object
    exact absurd hres object
  · next hs hres =>
    simp [Schema.isConst, Schema.enumValues?, Schema.properties?, hs] at object
    exact absurd hres object
  · next hs hres =>
    simp [Schema.isConst, Schema.enumValues?, Schema.items?, hs] at array
    exact absurd hres array
  · next hs hres =>
    simp [Schema.isConst, Schema.enumValues?, Schema.items?, hs] at array
    exact absurd hres array
  · exact ⟨_, _, rfl⟩

section InTurn

variable {t : RepeatTable}

/-- Properties of which each compiles from any table compile in turn. -/
private theorem exists_members {properties : List (String × Schema)} (required : List String)
    (each : ∀ m ∈ properties, ∀ t, ∃ tree t', node c t m.1 (p ++ [.property m.1]) (h.child m.1)
      (input.bind (·.member? m.1)) m.2 = .ok (tree, t')) :
    ∃ children t', members c t p h input required properties = .ok (children, t') := by
  induction properties generalizing t with
  | nil => exact ⟨[], t, rfl⟩
  | cons m properties ih =>
      obtain ⟨here, later⟩ := List.forall_mem_cons.1 each
      obtain ⟨child, u, first⟩ := here t
      obtain ⟨children, v, rest⟩ := ih (t := u) later
      rw [members]
      exact ⟨_, v, bind_eq_ok.2 ⟨(child, u), first, bind_eq_ok.2 ⟨(children, v), rest, rfl⟩⟩⟩

private theorem exists_forItems {f : Nat → Nat → RepeatTable → Outcome}
    (each : ∀ place i t, ∃ tree t', f place i t = .ok (tree, t')) (place : Nat)
    (indices : List Nat) : ∃ children t', forItems f place indices t = .ok (children, t') := by
  induction indices generalizing place t with
  | nil => exact ⟨[], t, rfl⟩
  | cons i indices ih =>
      obtain ⟨item, u, first⟩ := each place i t
      obtain ⟨items, v, rest⟩ := ih (t := u) (place + 1)
      rw [forItems]
      exact ⟨_, v, bind_eq_ok.2 ⟨(item, u), first, bind_eq_ok.2 ⟨(items, v), rest, rfl⟩⟩⟩

end InTurn

/-- A node compiles at every path with as many steps from the mount as the node is deep. At the
mount itself it may not be a list. -/
private def CompilesAt (c : Context) (s : Schema) : Prop :=
  ∀ limit rel, s.Within limit rel.withoutSynthetic.length → limit ≤ c.options.maxDepth →
    (rel.withoutSynthetic = [] → s.items? = none) → ∀ h, h.NamesNoParts →
      ∀ t name input, ∃ tree t', node c t name (c.root ++ rel) h input s = .ok (tree, t')

private theorem group_compiles {properties : List (String × Schema)} {required : List String}
    {limit : Nat} {rel : Path} (below : ∀ m ∈ properties, CompilesAt c m.2)
    (hr : s.role h = .group properties required)
    (depth : ¬c.options.maxDepth < c.depth (c.root ++ rel))
    (within : s.Within limit rel.withoutSynthetic.length) (deep : limit ≤ c.options.maxDepth)
    (hints : h.NamesNoParts) (t : RepeatTable) :
    ∃ tree t', node c t name (c.root ++ rel) h input s = .ok (tree, t') := by
  have each : ∀ m ∈ properties, ∀ t, ∃ tree t', node c t m.1 (c.root ++ rel ++ [.property m.1])
      (h.child m.1) (input.bind (·.member? m.1)) m.2 = .ok (tree, t') := by
    intro m hm t
    have deeper := within.property (Schema.properties_of_group hr) hm
    have step : Path.withoutSynthetic (rel ++ [.property m.1]) =
        rel.withoutSynthetic ++ [.property m.1] := Path.withoutSynthetic_append rel _
    rw [List.append_assoc]
    refine below m hm limit _ ?_ deep ?_ _ (hints.child m.1) t _ _
    · rwa [step, List.length_append]
    · rw [step]
      exact fun empty => absurd empty (by simp)
  obtain ⟨children, u, hmembers⟩ := exists_members (t := t) required each
  rw [node_group_eq depth hr]
  exact ⟨_, u, bind_eq_ok.2 ⟨(children, u), hmembers, rfl⟩⟩

private theorem repeated_compiles {items : Schema} {limit : Nat} {rel : Path}
    (below : CompilesAt c items) (hr : s.role h = .repeated items)
    (depth : ¬c.options.maxDepth < c.depth (c.root ++ rel))
    (within : s.Within limit rel.withoutSynthetic.length) (deep : limit ≤ c.options.maxDepth)
    (inside : rel.withoutSynthetic ≠ []) (hints : h.NamesNoParts) (t : RepeatTable) :
    ∃ tree t', node c t name (c.root ++ rel) h input s = .ok (tree, t') := by
  obtain ⟨key, field⟩ : ∃ key, FieldKey.ofPath? (c.schemaPath (c.root ++ rel)) = some key := by
    apply FieldKey.exists_ofPath?
    rwa [Context.schemaPath, Path.relativeTo_append, Path.withoutSynthetic_idem]
  have each : ∀ place i t, ∃ tree t', c.item (c.root ++ rel)
      (c.scaffold s name (c.root ++ rel) h none).title h input items place i t =
        .ok (tree, t') := by
    intro place i t
    have deeper := within.item (Schema.items_of_repeated hr)
    have step : Path.withoutSynthetic (rel ++ [.index i, .wrapper]) =
        rel.withoutSynthetic ++ [.index i] := Path.withoutSynthetic_append rel _
    obtain ⟨tree, u, element⟩ : ∃ tree t', node c t (toString i)
        (c.root ++ rel ++ [.index i, .wrapper]) h.item (itemInput input place i) items =
          .ok (tree, t') := by
      rw [List.append_assoc]
      refine below limit _ ?_ deep ?_ _ hints.item t _ _
      · rwa [step, List.length_append]
      · rw [step]
        exact fun empty => absurd empty (by simp)
    exact ⟨_, u, bind_eq_ok.2 ⟨(tree, u), element, rfl⟩⟩
  obtain ⟨children, u, hitems⟩ := exists_forItems each 0
    (t.ensured key (itemCount input) (c.root ++ rel)).indices
  rw [node_repeated_eq depth hr field]
  exact ⟨_, u, bind_eq_ok.2 ⟨(children, u), hitems, rfl⟩⟩

private theorem compilesAt (c : Context) (s : Schema) : CompilesAt c s := by
  refine Schema.induct ?_ s
  intro s properties items _ limit rel within deep root h hints t name input
  have depth : ¬c.options.maxDepth < c.depth (c.root ++ rel) := by
    rw [Context.depth_append]
    exact Nat.not_lt.2 (Nat.le_trans within.depth_le deep)
  cases hr : s.role h with
  | single => exact exists_node_single depth hints within.typed hr t
  | group ps required =>
      exact group_compiles (properties ps (Schema.properties_of_group hr)) hr depth within deep
        hints t
  | repeated i =>
      have hi := Schema.items_of_repeated hr
      have inside : rel.withoutSynthetic ≠ [] := by
        intro empty
        cases (root empty).symm.trans hi
      exact repeated_compiles (items i hi) hr depth within deep inside hints t

end Compile

/-- An accepted schema compiles, at every mount and with every input and table, where the limit of
the compilation is not below the one of the schema and no hint asks for a widget with parts. -/
theorem compileForm_total {limit : Nat} {raw : Json} {d : SchemaDocument}
    (hd : SchemaDocument.ofJson limit raw = .ok d) {options : CompileOptions}
    (deep : limit ≤ options.maxDepth) {h : Hint} (hints : h.NamesNoParts) (root : Path)
    (input : Option Json) (t : RepeatTable) :
    ∃ form, compileForm options root d h input t = .ok form := by
  obtain ⟨s, hs, hd⟩ := bind_eq_ok.1 hd
  split at hd
  · next properties required rest shape =>
    cases hd
    have within := Schema.within_of_normalize hs
    have noItems : s.items? = none := by rw [Schema.items?, shape]
    obtain ⟨tree, u, hnode⟩ := Compile.compilesAt ⟨options, root⟩ s limit [] within deep
      (fun _ => noItems) h hints t ((root.getLast?.map Segment.key).getD "") input
    rw [List.append_nil] at hnode
    exact ⟨⟨tree, u⟩, bind_eq_ok.2 ⟨(tree, u), hnode, rfl⟩⟩
  · cases hd

/-- The rows as a table, with no value to be entered in them. -/
private def rowsAsTable : Hint :=
  let texts : Hint := { enabled := some false }
  let rows : Hint := { widget := some "table", children := [("items", texts)] }
  { children := [("rows", rows)] }

private theorem rowsAsTable_namesNoParts : rowsAsTable.NamesNoParts := by
  refine .node ⟨nofun, nofun⟩ (List.forall_mem_singleton.2 ?_)
  refine .node (by simp) (List.forall_mem_singleton.2 ?_)
  exact .node ⟨nofun, nofun⟩ nofun

theorem compileForm_total_of_rows :
    SchemaDocument.ofJson 2 rowsOfTexts.raw = .error (.depthExceeded
      ["properties", "rows", "items", "items"] 2) ∧
      SchemaDocument.ofJson 3 rowsOfTexts.raw = .ok rowsOfTexts ∧ rowsAsTable.NamesNoParts ∧
        ∃ form, compileForm { maxDepth := 3 } [.property "form", .wrapper] rowsOfTexts rowsAsTable
          (some listsOfTexts) .twoRows = .ok form := by
  have normalized : SchemaDocument.ofJson 3 rowsOfTexts.raw = .ok rowsOfTexts := rfl
  exact ⟨rfl, normalized, rowsAsTable_namesNoParts,
    compileForm_total normalized (Nat.le_refl 3) rowsAsTable_namesNoParts _ _ _⟩

end FormTree
