import FormTree.Proofs.PointerMap.Bijection
import FormTree.Proofs.Compile.Keys

/-!
Forms filled in from a document. Where the document has the structure of the form,
each widget shows what is found at its own pointer.
-/

namespace FormTree

open WidgetTree (At Layout)

namespace Json

/-- A value is in another one, at any depth. -/
inductive Part : Json → Json → Prop
  | self (v : Json) : Part v v
  | item {v x : Json} {items : List Json} (held : x ∈ items) (below : Part v x) :
      Part v (.array items)
  | member {v : Json} {m : String × Json} {members : List (String × Json)} (held : m ∈ members)
      (below : Part v m.2) : Part v (.object members)

/-- No object in the value has the key. -/
def Lacks (v : Json) (key : String) : Prop :=
  ∀ members, Part (.object members) v → key ∉ members.map Prod.fst

namespace Lacks

variable {key name : String} {v x : Json} {items : List Json} {members : List (String × Json)}

@[simp]
theorem object_iff :
    (Json.object members).Lacks key ↔
      key ∉ members.map Prod.fst ∧ ∀ m ∈ members, m.2.Lacks key := by
  constructor
  · intro h
    exact ⟨h members (.self _), fun m hm entries part => h entries (.member hm part)⟩
  · rintro ⟨here, below⟩ entries part
    cases part with
    | self => exact here
    | member held part => exact below _ held entries part

@[simp]
theorem array_iff : (Json.array items).Lacks key ↔ ∀ x ∈ items, x.Lacks key := by
  constructor
  · exact fun h x hx members part => h members (.item hx part)
  · intro h members part
    cases part with
    | item held part => exact h _ held members part

@[simp]
theorem string (text key : String) : (Json.string text).Lacks key := nofun

theorem member (h : v.Lacks key) (held : v.member? name = some x) : x.Lacks key := by
  cases v with
  | object members => exact (object_iff.1 h).2 _ (mem_of_lookup held)
  | _ => cases held

theorem member?_eq_none (h : v.Lacks key) : v.member? key = none := by
  cases v with
  | object members =>
      cases hv : members.lookup key with
      | none => exact hv
      | some x => exact absurd (List.mem_map_of_mem (mem_of_lookup hv)) (object_iff.1 h).1
  | _ => rfl

end Lacks
end Json

namespace Compile

open Json.Lacks (array_iff)

variable {v : Json} {input' : Option Json} {rel : Path} {tokens : List String} {t n : WidgetTree}

theorem resolve?_property (noArray : v.array? = none) (name : String) (tokens : List String) :
    Pointer.resolve? (name :: tokens) v = (v.member? name).bind (Pointer.resolve? tokens) := by
  cases v with
  | array items => cases noArray
  | _ => rfl

/-- The input of an item is the one at its place, since there is no wrapper to take off. -/
private theorem itemInput_of_lacks (noObject : v.object? = none)
    (lacks : v.Lacks Segment.wrapperKey) (place i : Nat) :
    itemInput (some v) place i = v.array?.bind (·[place]?) := by
  cases v with
  | object members => cases noObject
  | array items =>
      rw [itemInput, Json.array?, Option.bind_some]
      cases hx : items[place]? with
      | none => rfl
      | some x =>
          have plain := (array_iff.1 lacks x (List.mem_of_getElem? hx)).member?_eq_none
          rw [Option.map_some, unwrapped, plain, Option.getD_none]
  | _ => rfl

private theorem resolve?_item (noObject : v.object? = none) (place : Nat) (tokens : List String) :
    Pointer.resolve? (toString place :: tokens) v =
      (v.array?.bind (·[place]?)).bind (Pointer.resolve? tokens) := by
  cases v with
  | object members => cases noObject
  | array items => rw [Pointer.resolve?, Pointer.index?_toString, Option.bind_some]; rfl
  | _ => rfl

/-- The value is no list where the tree has a group, and no object where it has a repeated
field. -/
structure Suits (v : Json) (t : WidgetTree) : Prop where
  groups : ∀ rel tokens n, At t rel tokens n → n.widget.kind = .group →
    (Pointer.resolve? tokens v).bind Json.array? = none
  repeated : ∀ rel tokens n, At t rel tokens n → n.widget.kind = .repeatable →
    (Pointer.resolve? tokens v).bind Json.object? = none

/-- What suits a tree has, one token below, what suits a tree inside. -/
private theorem Suits.below {u : Json} {child : WidgetTree} {token : String} (suits : Suits v t)
    (step : ∀ tokens, Pointer.resolve? (token :: tokens) v = Pointer.resolve? tokens u)
    (lift : ∀ rel tokens m, At child rel tokens m → ∃ rel', At t rel' (token :: tokens) m) :
    Suits u child := by
  constructor
  · intro rel tokens m hat kind
    obtain ⟨rel', hat⟩ := lift rel tokens m hat
    rw [← step]
    exact suits.groups rel' _ m hat kind
  · intro rel tokens m hat kind
    obtain ⟨rel', hat⟩ := lift rel tokens m hat
    rw [← step]
    exact suits.repeated rel' _ m hat kind

/-- Segments lead to the same part of a value as the tokens beside them. -/
theorem Inputs.eq_resolve? (hat : At t rel tokens n) (inputs : Inputs (some v) rel tokens input')
    (lacks : v.Lacks Segment.wrapperKey) (suits : Suits v t) :
    input' = Pointer.resolve? tokens v := by
  induction hat generalizing v with
  | here =>
      cases inputs
      rfl
  | @property t child _ name _ _ kind held path _ ih =>
      have step := resolve?_property (suits.groups [] [] t (.here t) kind) name
      cases inputs with
      | property inputs =>
          rw [step]
          rw [Option.bind_some] at inputs
          cases hu : v.member? name with
          | none => exact inputs.of_none hu
          | some u =>
              rw [hu] at inputs step
              refine ih inputs (lacks.member hu) (suits.below step ?_)
              exact fun _ _ _ hat => ⟨_, .property kind held path hat⟩
  | @item t item element _ place i _ tokens kind held wrapped _ ih =>
      have noObject := suits.repeated [] [] t (.here t) kind
      have step := resolve?_item noObject place
      generalize htokens : toString place :: tokens = ts at inputs
      cases inputs with
      | @item _ _ _ place' _ _ inputs =>
          obtain ⟨hplace, rfl⟩ := List.cons.inj htokens
          obtain rfl := Pointer.toString_injective hplace
          rw [step]
          rw [itemInput_of_lacks noObject lacks] at inputs
          cases hu : v.array?.bind (·[place]?) with
          | none => exact inputs.of_none hu
          | some u =>
              rw [hu] at inputs step
              have lacks' : u.Lacks Segment.wrapperKey := by
                cases v with
                | array items => exact array_iff.1 lacks u (List.mem_of_getElem? hu)
                | _ => cases hu
              refine ih inputs lacks' (suits.below step ?_)
              exact fun _ _ _ hat => ⟨_, .item kind held wrapped hat⟩

end Compile

namespace PointerMap

/-- A field has the pointer made of the tokens that lead to it. -/
theorem pointer?_of_at {root rel : Path} {t n : WidgetTree} {tokens : List String}
    (h : Layout root t) (hat : At t rel tokens n) :
    (ofTree t root).pointer? n.path = some (Pointer.join tokens) := by
  obtain ⟨rel', tokens', hat', pointer⟩ := pointer?_ofTree h hat.mem_nodes (hat.layout h).isField
  obtain ⟨-, rfl⟩ := hat.unique h hat'
  exact pointer

/-- What a document holds at the pointer of a path. -/
def value? (m : PointerMap) (p : Path) (doc : Json) : Option Json :=
  (m.pointer? p).bind (Pointer.lookup? · doc)

theorem value?_of_at {root rel : Path} {t n : WidgetTree} {tokens : List String}
    (h : Layout root t) (hat : At t rel tokens n) (doc : Json) :
    (ofTree t root).value? n.path doc = Pointer.resolve? tokens doc := by
  rw [value?, pointer?_of_at h hat, Option.bind_some, Pointer.lookup?, Pointer.tokens?_join,
    Option.bind_some]

end PointerMap

/-- A document with no list at the pointer of a group, no object at the pointer of a repeated
field, and no wrappers. -/
structure CompiledForm.Takes (form : CompiledForm) (root : Path) (doc : Json) : Prop where
  groups : ∀ n ∈ form.tree.nodes, n.widget.kind = .group →
    ((PointerMap.ofTree form.tree root).value? n.path doc).bind Json.array? = none
  repeated : ∀ n ∈ form.tree.nodes, n.widget.kind = .repeatable →
    ((PointerMap.ofTree form.tree root).value? n.path doc).bind Json.object? = none
  unwrapped : doc.Lacks Segment.wrapperKey

section Form

variable {options : CompileOptions} {root : Path} {d : SchemaDocument} {h : Hint} {doc : Json}
  {t : RepeatTable} {form : CompiledForm} {n : WidgetTree}

theorem CompiledForm.Takes.suits (takes : form.Takes root doc) (layout : Layout root form.tree) :
    Compile.Suits doc form.tree := by
  constructor
  · intro rel tokens m hat kind
    have clear := takes.groups m hat.mem_nodes kind
    rwa [PointerMap.value?_of_at layout hat] at clear
  · intro rel tokens m hat kind
    have clear := takes.repeated m hat.mem_nodes kind
    rwa [PointerMap.value?_of_at layout hat] at clear

/-- A widget in which a value is entered shows what a document has at its own pointer, or else the
default of its node. -/
theorem defaultValue_of_document (accepted : d.Accepted) (reachable : t.Reachable)
    (hok : compileForm options root d h (some doc) t = .ok form) (takes : form.Takes root doc)
    (hn : n ∈ form.tree.nodes) (kind : n.widget.kind.isInput = true) :
    ∃ q node, (PointerMap.ofTree form.tree root).pointer? n.path = some q ∧
      d.nodeAt? n.widget.propPath = some node ∧
        n.widget.defaultValue = ((Pointer.lookup? q doc).filter (· ≠ .null) <|> node.default) := by
  have layout := layout_of_compileForm accepted reachable hok
  obtain ⟨-, displays⟩ := compileForm_ok hok
  have field : n.widget.kind.isStructural = false := by
    cases hk : n.widget.kind <;> first | rfl | (rw [hk] at kind; cases kind)
  obtain ⟨rel, tokens, hat, pointer⟩ := PointerMap.pointer?_ofTree layout hn field
  obtain ⟨_, _, input', node, route, inputs, shown⟩ := displays.field hat accepted.sound
  obtain ⟨-, value⟩ := shown.single_of_isInput kind
  have read := inputs.eq_resolve? hat takes.unwrapped (takes.suits layout)
  refine ⟨_, node, pointer, displays.nodeAt?_propPath hat accepted.sound route, ?_⟩
  rw [value, read, Pointer.lookup?, Pointer.tokens?_join]
  rfl

end Form

private def lastText : Path :=
  [.property "form", .property "rows", .index 2, .wrapper, .index 0, .wrapper]

private theorem compileRows_takes :
    (compileRows (some listsOfTexts) .twoRows).map (fun form =>
      let m := PointerMap.ofTree form.tree [.property "form"]
      (decide (∀ n ∈ form.tree.nodes, n.widget.kind = .group →
          (m.value? n.path listsOfTexts).bind Json.array? = none),
        decide (∀ n ∈ form.tree.nodes, n.widget.kind = .repeatable →
          (m.value? n.path listsOfTexts).bind Json.object? = none),
        (form.tree.nodes.find? fun n => n.path = lastText).map fun n =>
          (n.widget.kind, m.pointer? n.path))) =
      .ok (true, true, some (.textfield, some "/rows/1/0")) := by decide +kernel

/-- The rows have a gap in their indices, and the text of the last one is the second row's. -/
theorem defaultValue_of_document_in_rows : ∃ form n,
    rowsOfTexts.Accepted ∧ RepeatTable.twoRows.Reachable ∧
      compileRows (some listsOfTexts) .twoRows = .ok form ∧
        form.Takes [.property "form"] listsOfTexts ∧ n ∈ form.tree.nodes ∧
          n.widget.kind.isInput = true ∧ n.path = lastText ∧
            (PointerMap.ofTree form.tree [.property "form"]).pointer? n.path = some "/rows/1/0" ∧
              n.widget.defaultValue = some (.string "c") := by
  have reachable := RepeatTable.twoRows_reachable
  have facts := compileRows_takes
  cases hok : compileRows (some listsOfTexts) .twoRows with
  | error e => rw [hok] at facts; cases facts
  | ok form =>
      rw [hok] at facts
      obtain ⟨groups, facts⟩ := Prod.mk.inj (Except.ok.inj facts)
      obtain ⟨repeated, found⟩ := Prod.mk.inj facts
      have unwrapped : listsOfTexts.Lacks Segment.wrapperKey := by
        simp [listsOfTexts, Segment.wrapperKey]
      have takes : form.Takes [.property "form"] listsOfTexts :=
        ⟨of_decide_eq_true groups, of_decide_eq_true repeated, unwrapped⟩
      obtain ⟨n, hn, shown⟩ := Option.map_eq_some_iff.1 found
      obtain ⟨kind, pointer⟩ := Prod.mk.inj shown
      have inside := List.mem_of_find?_eq_some hn
      have path : n.path = lastText := by simpa using List.find?_some hn
      have isInput : n.widget.kind.isInput = true := by rw [kind]; rfl
      obtain ⟨q, node, same, -, value⟩ :=
        defaultValue_of_document rowsOfTexts_accepted reachable hok takes inside isInput
      cases pointer.symm.trans same
      exact ⟨form, n, rowsOfTexts_accepted, reachable, rfl, takes, inside, isInput, path, pointer,
        value⟩

end FormTree
