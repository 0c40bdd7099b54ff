import FormTree.Proofs.Compile.Image
import FormTree.Proofs.Numeral.Proper
import FormTree.Proofs.Submission.Typed

/-!
Choices and what they stand for. An option is submitted as the text of its value. A number and
its text are cast to the same number, so an option comes back as its value where texts or numbers
are declared. No text of a boolean, of `null` or of a container is cast to it.
-/

namespace FormTree

theorem Compile.mem_options_of_enum {c : Context} {table table' : RepeatTable} {name : String}
    {p : Path} {h : Hint} {input : Option Json} {s : Schema} {tree : WidgetTree}
    {values : List Json} {v : Json} (hs : s.shape = .enum values) (hv : v ∈ values)
    (hok : node c table name p h input s = .ok (tree, table')) :
    v.displayText ∈ tree.widget.options.map Prod.fst := by
  rw [node_eq (node_depth hok), hs] at hok
  cases hok
  change v.displayText ∈ (optionsFor h values).map Prod.fst
  rw [keys_optionsFor, optionKeys, List.mem_eraseDups]
  exact List.mem_map_of_mem hv

namespace Submission

variable {s : Schema} {types : TypeSet} {v : Json} {t : JsonType} {m : Number}

theorem numberOf?_toText (types : TypeSet) (proper : m.Proper) :
    numberOf? types (.string m.toText) = numberOf? types (.number m) := by
  rw [numberOf?, parseNumber?_eq, m.read?_toText, Option.bind_some]
  cases m with
  | int i =>
      have whole : (Number.int i).numeral.isWhole = true := rfl
      rw [Number.wholeValue_numeral, if_pos ⟨whole, proper⟩]
      rfl
  | float x =>
      have fraction : ¬(Number.float x).numeral.isWhole = true := by
        rw [show (Number.float x).numeral = x.numeral from rfl, x.isWhole_numeral]
        exact Bool.false_ne_true
      rw [if_neg fun fits => fraction fits.1]
      exact congrArg (Option.map (settled types)) (Binary64.nearest?_numeral proper)

/-- A number of the declared type is cast back from its text. -/
theorem castScalar_toText (numeric : types.isNumeric = true) (proper : m.Proper)
    (settled : numberOf? types (.number m) = some m) :
    castScalar types (.string m.toText) = .number m := by
  rw [← numberOf?_toText types proper] at settled
  exact (Coerced.number (castNumber?_eq_some_iff.2 ⟨numeric, m, settled, rfl⟩)).castScalar_eq

/-- An option comes back as its value where the one declared type is that of texts or numbers,
and else as the text of the option. -/
theorem cast_option {values : List Json} (hs : s.shape = .enum values) (declared : s.types = [t])
    (hv : v ∈ values) (typed : t.admits false v = true) (proper : ∀ m, v = .number m → m.Proper) :
    (∀ c table name p h input tree table',
      Compile.node c table name p h input s = .ok (tree, table') →
        v.displayText ∈ tree.widget.options.map Prod.fst) ∧
    cast s (.string v.displayText) =
      if t = .string ∨ t = .integer ∨ t = .number then v else .string v.displayText := by
  refine ⟨fun _ _ _ _ _ _ _ _ => Compile.mem_options_of_enum hs hv, ?_⟩
  rw [cast_leaf s rfl, declared]
  cases t with
  | string =>
      cases v with
      | string text => exact castScalar_text rfl nofun nofun
      | _ => cases typed
  | integer =>
      cases v with
      | number m =>
          cases m with
          | int i => exact castScalar_toText rfl (proper _ rfl) rfl
          | float x => cases typed
      | _ => cases typed
  | number =>
      cases v with
      | number m => exact castScalar_toText rfl (proper m rfl) (by cases m <;> rfl)
      | _ => cases typed
  | boolean =>
      cases v with
      | bool b => cases b <;> exact castScalar_text rfl (fun _ => by decide) nofun
      | _ => cases typed
  | null =>
      cases v with
      | null => exact castScalar_text rfl nofun fun _ => by decide
      | _ => cases typed
  | array | object => exact castScalar_text rfl nofun nofun

private def choiceOf (t : JsonType) (values : List Json) : Schema :=
  ⟨[t], none, none, none, none, .enum values⟩

private def tenth : Binary64 := ⟨false, 7205759403792794, -56⟩

/-- The options of a number that is read from a text, which makes it one of 64 bits. -/
theorem cast_option_tenth :
    Json.read? 1 "[0.1]" = some (.array [.number (.float tenth)]) ∧
      cast (choiceOf .number [.number (.float tenth)])
        (.string (Json.number (.float tenth)).displayText) = .number (.float tenth) := by
  have read : Json.read? 1 "[0.1]" = some (.array [.number (.float tenth)]) := by decide +kernel
  have proper : ∀ v ∈ [Json.number (.float tenth)], v.Proper :=
    (Json.everywhere_array_iff.1 (Json.proper_of_read? read)).2
  exact ⟨read, (cast_option (s := choiceOf .number [.number (.float tenth)]) rfl rfl
    List.mem_cons_self rfl (proper _ List.mem_cons_self _ .self)).2⟩

/-- An option for a boolean is submitted as a text. -/
theorem not_cast_option : ¬∀ (s : Schema) (values : List Json) (t : JsonType) (v : Json),
    s.shape = .enum values → s.types = [t] → v ∈ values → t.admits false v = true →
      (∀ m, v = .number m → m.Proper) → cast s (.string v.displayText) = v := by
  intro h
  have back := h (choiceOf .boolean [.bool true, .bool false]) _ _ (.bool true) rfl rfl
    List.mem_cons_self rfl nofun
  revert back
  decide +kernel

end Submission

end FormTree
