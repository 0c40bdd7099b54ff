import FormTree.Proofs.Compile.Held

/-!
Compilations one after the other, each from the table that the one before leaves.
The properties of a group are compiled so, and the elements of a repeated field.
-/

namespace FormTree
namespace Compile

variable {α : Type} {f : Nat → α → RepeatTable → Outcome} {rows : List (α × WidgetTree)}
  {place : Nat} {t t' T : RepeatTable}

/-- What each row compiles to, from the place of the first row on. -/
inductive InTurn (f : Nat → α → RepeatTable → Outcome) :
    Nat → List (α × WidgetTree) → RepeatTable → RepeatTable → Prop
  | nil (place : Nat) (t : RepeatTable) : InTurn f place [] t t
  | cons {place : Nat} {a : α} {tree : WidgetTree} {rows : List (α × WidgetTree)}
      {t u v : RepeatTable} (first : f place a t = .ok (tree, u))
      (rest : InTurn f (place + 1) rows u v) : InTurn f place ((a, tree) :: rows) t v

/-- What every compilation does to the table, all of them do, as long as it can be repeated. -/
theorem InTurn.table {R : RepeatTable → RepeatTable → Prop} (refl : ∀ t, R t t)
    (trans : ∀ t u v, R t u → R u v → R t v)
    (each : ∀ n r, rows[n]? = some r → ∀ t u, f (place + n) r.1 t = .ok (r.2, u) → R t u)
    (h : InTurn f place rows t t') : R t t' := by
  induction h with
  | nil _ t => exact refl t
  | @cons place a tree rows t u v first _ ih =>
      refine trans t u v (each 0 (a, tree) rfl t u first) (ih ?_)
      intro n r hr
      rw [Nat.add_right_comm]
      exact each (n + 1) r hr

/-- A row is compiled to a table from which the last one comes. -/
theorem InTurn.row {R : RepeatTable → RepeatTable → Prop} (refl : ∀ t, R t t)
    (trans : ∀ t u v, R t u → R u v → R t v)
    (each : ∀ n r, rows[n]? = some r → ∀ t u, f (place + n) r.1 t = .ok (r.2, u) → R t u)
    (h : InTurn f place rows t t') {n : Nat} {r : α × WidgetTree} (hr : rows[n]? = some r) :
    ∃ u v, f (place + n) r.1 u = .ok (r.2, v) ∧ R v t' := by
  induction h generalizing n with
  | nil => cases hr
  | @cons place a tree rows t u v first rest ih =>
      have later : ∀ n r, rows[n]? = some r → ∀ t u,
          f (place + 1 + n) r.1 t = .ok (r.2, u) → R t u := by
        intro n r hr
        rw [Nat.add_right_comm]
        exact each (n + 1) r hr
      cases n with
      | zero =>
          cases hr
          exact ⟨t, u, first, rest.table refl trans later⟩
      | succ n =>
          rw [← Nat.add_assoc, Nat.add_right_comm]
          exact ih later hr

/-- A row is compiled from the table that the rows before it leave. -/
theorem InTurn.before (h : InTurn f place rows t t') {n : Nat} {r : α × WidgetTree}
    (hr : rows[n]? = some r) :
    ∃ u v, InTurn f place (rows.take n) t u ∧ f (place + n) r.1 u = .ok (r.2, v) := by
  induction h generalizing n with
  | nil => cases hr
  | @cons place a tree rows t u v first _ ih =>
      cases n with
      | zero =>
          cases hr
          exact ⟨t, u, .nil place t, first⟩
      | succ n =>
          obtain ⟨u', v', earlier, run⟩ := ih hr
          rw [← Nat.add_assoc, Nat.add_right_comm]
          exact ⟨u', v', .cons first earlier, run⟩

/-- Rows that leave a table as it is are compiled from it in turn. -/
theorem InTurn.of_each
    (each : ∀ n r, rows[n]? = some r → f (place + n) r.1 T = .ok (r.2, T)) :
    InTurn f place rows T T := by
  induction rows generalizing place with
  | nil => exact .nil place T
  | cons r rows ih =>
      refine .cons (each 0 r rfl) (ih ?_)
      intro n r hr
      rw [Nat.add_right_comm]
      exact each (n + 1) r hr

section Rows

variable {c : Context} {p : Path} {h : Hint} {input : Option Json}

/-- A property of a group, before its group says whether it is required. -/
def Context.property (c : Context) (p : Path) (h : Hint) (input : Option Json) (_ : Nat)
    (m : String × Schema) (t : RepeatTable) : Outcome :=
  node c t m.1 (p ++ [.property m.1]) (h.child m.1) (input.bind (·.member? m.1)) m.2

/-- The element of an item, before it is wrapped. -/
def Context.element (c : Context) (p : Path) (h : Hint) (input : Option Json) (items : Schema)
    (place i : Nat) (t : RepeatTable) : Outcome :=
  node c t (toString i) (p ++ [.index i, .wrapper]) h.item (itemInput input place i) items

theorem members_ok_iff (place : Nat) {properties : List (String × Schema)}
    {required : List String} {children : List WidgetTree} :
    members c t p h input required properties = .ok (children, t') ↔
      ∃ rows : List ((String × Schema) × WidgetTree), rows.map Prod.fst = properties ∧
        rows.map (heldProperty required) = children ∧
          InTurn (c.property p h input) place rows t t' := by
  induction properties generalizing t children place with
  | nil =>
      rw [members]
      constructor
      · intro hok
        cases hok
        exact ⟨[], rfl, rfl, .nil place _⟩
      · rintro ⟨rows, hrows, rfl, inTurn⟩
        cases List.map_eq_nil_iff.1 hrows
        cases inTurn
        rfl
  | cons m properties ih =>
      obtain ⟨name, s⟩ := m
      rw [members]
      constructor
      · intro hok
        obtain ⟨⟨child, u⟩, first, hok⟩ := bind_eq_ok.1 hok
        obtain ⟨⟨rest, v⟩, hrest, hok⟩ := bind_eq_ok.1 hok
        cases hok
        obtain ⟨rows, rfl, rfl, inTurn⟩ := (ih (place + 1)).1 hrest
        exact ⟨((name, s), child) :: rows, rfl, rfl, .cons first inTurn⟩
      · rintro ⟨rows, hrows, rfl, inTurn⟩
        cases inTurn with
        | nil => cases hrows
        | @cons _ m child rows _ u _ first inTurn =>
            obtain ⟨rfl, all⟩ := List.cons.inj hrows
            have hrest := (ih (place + 1)).2 ⟨rows, all, rfl, inTurn⟩
            exact bind_eq_ok.2 ⟨_, first, bind_eq_ok.2 ⟨_, hrest, rfl⟩⟩

theorem forItems_ok_iff {items : Schema} {title : String} {indices : List Nat}
    {children : List WidgetTree} :
    forItems (c.item p title h input items) place indices t = .ok (children, t') ↔
      ∃ rows : List (Nat × WidgetTree), rows.map Prod.fst = indices ∧
        rows.map (c.heldItem p title) = children ∧
          InTurn (c.element p h input items) place rows t t' := by
  induction indices generalizing t children place with
  | nil =>
      rw [forItems]
      constructor
      · intro hok
        cases hok
        exact ⟨[], rfl, rfl, .nil place _⟩
      · rintro ⟨rows, hrows, rfl, inTurn⟩
        cases List.map_eq_nil_iff.1 hrows
        cases inTurn
        rfl
  | cons i indices ih =>
      rw [forItems]
      constructor
      · intro hok
        obtain ⟨⟨item, u⟩, hitem, hok⟩ := bind_eq_ok.1 hok
        obtain ⟨⟨rest, v⟩, hrest, hok⟩ := bind_eq_ok.1 hok
        cases hok
        obtain ⟨⟨element, u'⟩, first, hitem⟩ := bind_eq_ok.1 hitem
        cases hitem
        obtain ⟨rows, rfl, rfl, inTurn⟩ := ih.1 hrest
        exact ⟨(i, element) :: rows, rfl, rfl, .cons first inTurn⟩
      · rintro ⟨rows, hrows, rfl, inTurn⟩
        cases inTurn with
        | nil => cases hrows
        | @cons _ i element rows _ u _ first inTurn =>
            obtain ⟨rfl, all⟩ := List.cons.inj hrows
            have hrest := ih.2 ⟨rows, all, rfl, inTurn⟩
            have hitem : c.item p title h input items place i t =
                .ok (c.wrapItem p title i element, u) := bind_eq_ok.2 ⟨_, first, rfl⟩
            exact bind_eq_ok.2 ⟨_, hitem, bind_eq_ok.2 ⟨_, hrest, rfl⟩⟩

end Rows

end Compile
end FormTree
