import FormTree.Proofs.Submission.Origin

/-!
What a form shows after a submission. The input of a field is what was entered
under the keys of its own segments, whatever the order of the submission, and a
widget shows that input, or else the default of its node.
-/

namespace FormTree

namespace Compile

open Submission (Shaped entered? isScalar)

variable {input input' : Option Json} {rel : Path} {tokens : List String} {s s' : Schema}
  {h h' : Hint} {raw v : Json}

private theorem itemInput_submits {members : List (String × Json)}
    {submitted : List Submission.Entered} (submits : Submission.Submits members submitted)
    (place i : Nat) :
    (∃ e ∈ submitted, e.index = i ∧ members.lookup (toString i) = some e.wrapper ∧
        itemInput (some (.object members)) place i = some e.value) ∨
      members.lookup (toString i) = none ∧ itemInput (some (.object members)) place i = none := by
  cases hw : members.lookup (toString i) with
  | none => exact .inr ⟨rfl, by rw [itemInput, hw]; rfl⟩
  | some w =>
      obtain ⟨e, he, hindex, rfl⟩ := submits.of_lookup hw
      have value : itemInput (some (.object members)) place i = some e.value := by
        rw [itemInput, hw, Option.map_some, unwrapped, (submits.wrapped e he).member?]
        rfl
      exact .inl ⟨e, he, hindex, rfl, value⟩

/-- The input of a field is what was entered under the keys of its segments. -/
theorem Inputs.entered (inputs : Inputs (some raw) rel tokens input')
    (route : s.Route h rel tokens s' h') (shaped : Shaped s h raw) :
    input' = entered? (rel.map Segment.key) raw ∧ ∀ v, input' = some v → Shaped s' h' v := by
  induction route generalizing raw with
  | here =>
      cases inputs
      exact ⟨rfl, fun v hv => Option.some.inj hv ▸ shaped⟩
  | @property _ _ _ _ _ _ _ name _ _ role declared _ ih =>
      obtain ⟨members, rfl, -, -, below⟩ := shaped.group_members role
      cases inputs with
      | property inputs =>
          rw [List.map_cons, Segment.key, entered?]
          rw [Option.bind_some] at inputs
          cases hu : (Json.object members).member? name with
          | none =>
              rw [hu] at inputs
              obtain rfl := inputs.of_none rfl
              exact ⟨rfl, fun v hv => by cases hv⟩
          | some u =>
              rw [hu] at inputs
              exact ih inputs (below _ (mem_of_lookup hu) _ declared)
  | @item _ _ _ _ _ i place rel tokens role _ ih =>
      obtain ⟨members, submitted, rfl, submits, below⟩ := shaped.repeated_items role
      -- A list would be read by place; a submission is a mapping, which is read by index.
      generalize htokens : toString place :: tokens = ts at inputs
      cases inputs with
      | @item _ _ _ place' _ _ inputs =>
          obtain ⟨-, rfl⟩ := List.cons.inj htokens
          rw [List.map_cons, List.map_cons, Segment.key, Segment.key, entered?, Json.member?]
          rcases itemInput_submits submits place' i with ⟨e, he, rfl, hw, hv⟩ | ⟨hw, hv⟩
          · rw [hv] at inputs
            rw [hw, Option.bind_some, entered?, (submits.wrapped e he).member?, Option.bind_some]
            exact ih inputs (below e he)
          · rw [hv] at inputs
            rw [hw]
            obtain rfl := inputs.of_none rfl
            exact ⟨rfl, fun v hv => by cases hv⟩

/-- What is submitted for a single widget is no null, so it is shown. -/
theorem filter_shaped (role : s.role h = .single) (shaped : ∀ v, input = some v → Shaped s h v) :
    input.filter (· ≠ .null) = input := by
  cases input with
  | none => rfl
  | some v =>
      have filled : v ≠ .null := by
        rintro rfl
        exact absurd ((shaped .null rfl).scalar role) nofun
      rw [Option.filter_some, if_pos (decide_eq_true filled)]

end Compile

namespace Submission

/-- A widget in which a value is entered shows what is submitted for it, or else the default of
its node. -/
theorem shown_after_submission {options : CompileOptions} {root : Path} {d : SchemaDocument}
    {h : Hint} {raw : Json} {t : RepeatTable} {form : CompiledForm} {n : WidgetTree} {rel : Path}
    {tokens : List String} (accepted : d.Accepted) (reachable : t.Reachable)
    (hok : compileForm options root d h (some raw) t = .ok form) (shaped : Shaped d.root h raw)
    (hat : WidgetTree.At form.tree rel tokens n) (kind : n.widget.kind.isInput = true) :
    ∃ s h', d.root.Route h rel tokens s h' ∧ s.role h' = .single ∧
      d.nodeAt? n.widget.propPath = some s ∧
        n.widget.defaultValue = (submittedAt? root n.path raw <|> s.default) := by
  have layout := layout_of_compileForm accepted reachable hok
  obtain ⟨-, displays⟩ := compileForm_ok hok
  obtain ⟨_, h', input, s, route, inputs, shown⟩ := displays.field hat accepted.sound
  obtain ⟨entered, shapedBelow⟩ := inputs.entered route shaped
  obtain ⟨single, value⟩ := shown.single_of_isInput kind
  refine ⟨s, h', route, single, displays.nodeAt?_propPath hat accepted.sound route, ?_⟩
  rw [(hat.layout layout).path, submittedAt?_append, value,
    Compile.filter_shaped single shapedBelow, entered]

end Submission
end FormTree
