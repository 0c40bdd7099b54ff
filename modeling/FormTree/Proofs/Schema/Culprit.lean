import FormTree.Proofs.Json.Pointer
import FormTree.Proofs.Schema.Limit

/-!
Where the errors of normalization point. The pointer of an error leads from the raw schema to
the value at fault, by the keywords that hold nodes, whatever characters the names on the way
have.
-/

namespace FormTree

namespace SchemaError

/-- The tokens that lead to the value at fault. -/
def location : SchemaError → List String
  | .notObject loc | .unknownType _ loc | .typeNotStrings loc | .enumNotArray loc
  | .itemsNotObject loc | .propertiesNotObject loc | .requiredNotArray loc
  | .requiredNotStrings loc | .noItems loc | .noProperties loc | .depthExceeded loc _ => loc
  | .rootNotObject => []

def pointer (e : SchemaError) : String := Pointer.join e.location

/-- The message quotes the pointer. -/
theorem quoted_in_message (e : SchemaError) :
    ∃ before after, e.message = before ++ "'" ++ e.pointer ++ "'" ++ after := by
  have quotes (before after : String) (loc : List String) :
      before ++ quoted loc ++ after = before ++ "'" ++ Pointer.join loc ++ "'" ++ after := by
    simp only [quoted, String.append_assoc]
  cases e with
  | rootNotObject =>
      refine ⟨"unsupported schema at ", ": root schema must be an object with properties", ?_⟩
      rw [pointer, location, Pointer.join_nil]
      rfl
  | unknownType _ loc | depthExceeded loc _ =>
      exact ⟨_, "", String.append_empty.symm.trans (quotes _ "" loc)⟩
  | _ => exact ⟨_, _, quotes _ _ _⟩

end SchemaError

namespace Schema

/-- A way leads from a raw schema to a value in it, by the keywords that hold nodes. -/
inductive RawLeads : Json → Way → Json → Prop
  | here (v : Json) : RawLeads v [] v
  | property {keywords members : List (String × Json)} {name : String} {u v : Json} {w : Way}
      (declared : keywords.lookup "properties" = some (.object members))
      (member : members.lookup name = some u) (below : RawLeads u w v) :
      RawLeads (.object keywords) (.property name :: w) v
  | items {keywords : List (String × Json)} {u v : Json} {w : Way}
      (held : keywords.lookup "items" = some u) (below : RawLeads u w v) :
      RawLeads (.object keywords) (.items :: w) v

theorem RawLeads.resolve? {v u : Json} {w : Way} (h : RawLeads v w u) :
    Pointer.resolve? w.tokens v = some u := by
  induction h with
  | here => rfl
  | property declared member _ ih =>
      change Pointer.resolve? ("properties" :: _ :: Way.tokens _) _ = _
      rw [Pointer.resolve?, declared, Option.bind_some, Pointer.resolve?, member, Option.bind_some,
        ih]
  | items held _ ih =>
      change Pointer.resolve? ("items" :: Way.tokens _) _ = _
      rw [Pointer.resolve?, held, Option.bind_some, ih]

/-- The names of types under the keyword, as they are written. -/
def typeNames (keywords : List (String × Json)) : List String :=
  match keywords.lookup "type" with
  | some (.string name) => [name]
  | some (.array names) => names.filterMap Json.string?
  | _ => []

/-- The first of the types that has parts. -/
def firstContainer? (keywords : List (String × Json)) : Option String :=
  (typeNames keywords).find? fun name => name = "array" || name = "object"

/-- A node that would have parts, if it declared them. -/
inductive Partless : Json → Prop
  | array {keywords : List (String × Json)} (undecided : Undecided keywords)
      (first : firstContainer? keywords = some "array") (missing : keywords.lookup "items" = none) :
      Partless (.object keywords)
  | object {keywords : List (String × Json)} (undecided : Undecided keywords)
      (first : firstContainer? keywords = some "object")
      (missing : keywords.lookup "properties" = none ∨
        keywords.lookup "properties" = some (.object [])) : Partless (.object keywords)

section Types

variable {loc : List String} {keywords : List (String × Json)} {types : TypeSet}

theorem find?_eraseDups {α : Type} [BEq α] [LawfulBEq α] (p : α → Bool) (l : List α) :
    l.eraseDups.find? p = l.find? p := by
  match l with
  | [] => rfl
  | a :: l =>
      rw [List.eraseDups_cons, List.find?_cons, List.find?_cons, find?_eraseDups p]
      split
      · rfl
      · next refused =>
        rw [List.find?_filter]
        refine congrArg (l.find? ·) (funext fun b => ?_)
        by_cases same : b = a
        · simp [same, refused]
        · simp [same]
termination_by l.length
decreasing_by exact Nat.lt_succ_of_le (List.length_filter_le _ _)

theorem typeNamed_ok {v : Json} {t : JsonType} (h : typeNamed loc v = .ok t) :
    v = .string t.name := by
  rw [typeNamed] at h
  split at h
  · next found =>
    cases h
    obtain ⟨name, text, named⟩ := Option.bind_eq_some_iff.1 found
    rw [← JsonType.eq_name_of_ofName? named]
    cases v with
    | string _ =>
        cases text
        rfl
    | _ => cases text
  · cases h

private theorem mapM_typeNamed {names : List Json} {declared : List JsonType}
    (h : names.mapM (typeNamed loc) = .ok declared) :
    names = declared.map fun t => .string t.name := by
  induction names generalizing declared with
  | nil =>
      cases h
      rfl
  | cons v names ih =>
      rw [List.mapM_cons] at h
      obtain ⟨t, ht, h⟩ := bind_eq_ok.1 h
      obtain ⟨rest, hrest, h⟩ := bind_eq_ok.1 h
      cases h
      rw [List.map_cons, ← ih hrest, typeNamed_ok ht]

/-- The types of a node are the ones that are named. -/
private theorem typeNames_eq (h : readTypes loc (keywords.lookup "type") = .ok types) :
    ∃ declared : List JsonType, typeNames keywords = declared.map JsonType.name ∧
      types = declared.eraseDups := by
  rw [typeNames]
  rw [readTypes.eq_def] at h
  split at h
  · next absent =>
    cases h
    exact ⟨[], by rw [absent]; rfl, rfl⟩
  · next name found =>
    obtain ⟨t, ht, h⟩ := bind_eq_ok.1 h
    cases h
    cases typeNamed_ok ht
    exact ⟨[t], by rw [found]; rfl, rfl⟩
  · next names found =>
    obtain ⟨declared, hd, h⟩ := bind_eq_ok.1 h
    cases h
    refine ⟨declared, ?_, rfl⟩
    rw [found, mapM_typeNamed hd]
    simp [List.filterMap_map, Function.comp_def, Json.string?]
  · cases h

private theorem isContainer_name (t : JsonType) :
    (decide (t.name = "array") || decide (t.name = "object")) = (t == .array || t == .object) := by
  cases t <;> rfl

/-- The first container among the types of a node is the first one that is named. -/
theorem firstContainer?_eq (h : readTypes loc (keywords.lookup "type") = .ok types) :
    firstContainer? keywords = types.structural?.map JsonType.name := by
  obtain ⟨declared, names, rfl⟩ := typeNames_eq h
  rw [firstContainer?, names, List.find?_map, TypeSet.structural?, find?_eraseDups]
  refine congrArg (Option.map _) (congrArg (List.find? · declared) (funext fun t => ?_))
  exact isContainer_name t

end Types

/-- A malformed keyword of the node at a place. -/
def Malformed (loc : List String) (e : SchemaError) : Prop :=
  e.location = loc ∧ e.category = .invalid

/-- What an error says of the value that a way leads to, from a node at a depth on. -/
structure PointsTo (limit depth : Nat) (loc : List String) (e : SchemaError) (w : Way) (u : Json) :
    Prop where
  location : e.location = loc ++ w.tokens
  deep : e.category = .depthExceeded →
    e = .depthExceeded (loc ++ w.tokens) limit ∧ depth + w.length = limit + 1
  partless : e.category = .unsupported → Partless u

section Errors

variable {limit depth : Nat} {loc : List String} {keywords : List (String × Json)}
  {types : TypeSet} {e : SchemaError}

theorem readTypes_error {v? : Option Json} (h : readTypes loc v? = .error e) : Malformed loc e := by
  have named {v : Json} (h : typeNamed loc v = .error e) : Malformed loc e := by
    rw [typeNamed] at h
    split at h <;> cases h
    exact ⟨rfl, rfl⟩
  rw [readTypes.eq_def] at h
  split at h
  · cases h
  · rcases bind_error_cases h with h | ⟨_, -, h⟩
    · exact named h
    · cases h
  · rcases bind_error_cases h with h | ⟨_, -, h⟩
    · obtain ⟨v, -, h⟩ := exists_of_mapM_error h
      exact named h
    · cases h
  · cases h
    exact ⟨rfl, rfl⟩

theorem readRequired_error {v? : Option Json} (h : readRequired loc v? = .error e) :
    Malformed loc e := by
  rw [readRequired.eq_def] at h
  split at h
  · cases h
  · rcases bind_error_cases h with h | ⟨_, -, h⟩
    · obtain ⟨v, -, h⟩ := exists_of_mapM_error h
      split at h <;> cases h
      exact ⟨rfl, rfl⟩
    · cases h
  · cases h
    exact ⟨rfl, rfl⟩

theorem outline_error (h : outline loc types keywords = .error e) : Malformed loc e := by
  rw [outline] at h
  split at h
  · cases h
  · rcases bind_error_cases h with h | ⟨_, -, h⟩
    · rw [readEnum.eq_def] at h
      split at h <;> cases h
      exact ⟨rfl, rfl⟩
    · split at h
      · cases h
      · split at h <;> cases h

/-- A malformed keyword is the fault of the node itself. -/
theorem Malformed.pointsTo (h : Malformed loc e) (limit depth : Nat) (v : Json) :
    PointsTo limit depth loc e [] v := by
  obtain ⟨location, category⟩ := h
  refine ⟨location.trans (List.append_nil loc).symm, fun deep => ?_, fun partless => ?_⟩
  · cases category.symm.trans deep
  · cases category.symm.trans partless

/-- A node with too few parts is at fault itself. -/
theorem Partless.pointsTo {v : Json} (h : Partless v) (location : e.location = loc)
    (category : e.category = .unsupported) (limit depth : Nat) :
    PointsTo limit depth loc e [] v := by
  refine ⟨location.trans (List.append_nil loc).symm, fun deep => ?_, fun _ => h⟩
  cases category.symm.trans deep

/-- So is a node that lies one step too deep. -/
theorem pointsTo_of_deep (beyond : depth = limit + 1) (loc : List String) (v : Json) :
    PointsTo limit depth loc (.depthExceeded loc limit) [] v := by
  have place : loc = loc ++ Way.tokens [] := (List.append_nil loc).symm
  exact ⟨place, fun _ => ⟨by rw [← place], beyond⟩, nofun⟩

theorem PointsTo.step {step : Step} {w : Way} {u : Json}
    (h : PointsTo limit (depth + 1) (loc ++ step.tokens) e w u) :
    PointsTo limit depth loc e (step :: w) u := by
  have tokens : loc ++ Way.tokens (step :: w) = loc ++ step.tokens ++ w.tokens := by
    rw [Way.tokens, List.flatMap_cons, List.append_assoc]
    rfl
  refine ⟨tokens ▸ h.location, fun deep => ?_, h.partless⟩
  obtain ⟨exceeded, length⟩ := h.deep deep
  exact ⟨tokens ▸ exceeded, by rw [List.length_cons]; omega⟩

/-- Every error of the node is the fault of a value in it. -/
private def Blames (v : Json) : Prop :=
  ∀ ⦃limit depth loc e⦄, depth ≤ limit + 1 → normalize limit depth loc v = .error e →
    ∃ w u, RawLeads v w u ∧ PointsTo limit depth loc e w u

private theorem items_blame (below : ∀ u, keywords.lookup "items" = some u → Blames u)
    (shallow : depth ≤ limit) (h : normalizeItems limit depth loc keywords = .error e) :
    ∃ w u, RawLeads (.object keywords) w u ∧ PointsTo limit depth loc e w u := by
  rw [normalizeItems_eq] at h
  split at h
  · cases h
  · next v held =>
    split at h
    · rcases bind_error_cases h with h | ⟨_, -, h⟩
      · obtain ⟨w, u, leads, points⟩ := below v held (Nat.succ_le_succ shallow) h
        exact ⟨.items :: w, u, .items held leads, points.step⟩
      · cases h
    · cases h
      have malformed : Malformed loc (.itemsNotObject loc) := ⟨rfl, rfl⟩
      exact ⟨[], _, .here _, malformed.pointsTo _ _ _⟩

private theorem exists_of_members_error {members : List (String × Json)}
    (h : normalizeMembers limit depth loc members = .error e) :
    ∃ m ∈ members, normalize limit (depth + 1) (loc ++ ["properties", m.1]) m.2 = .error e := by
  induction members with
  | nil => cases h
  | cons m members ih =>
      obtain ⟨name, v⟩ := m
      rw [normalizeMembers] at h
      rcases bind_error_cases h with first | ⟨_, -, h⟩
      · exact ⟨_, List.mem_cons_self, first⟩
      · rcases bind_error_cases h with rest | ⟨_, -, h⟩
        · obtain ⟨m, hm, refused⟩ := ih rest
          exact ⟨m, List.mem_cons_of_mem _ hm, refused⟩
        · cases h

private theorem properties_blame
    (below : ∀ members, keywords.lookup "properties" = some (.object members) →
      (members.map Prod.fst).Nodup ∧ ∀ m ∈ members, Blames m.2)
    (shallow : depth ≤ limit) (h : normalizeProperties limit depth loc keywords = .error e) :
    ∃ w u, RawLeads (.object keywords) w u ∧ PointsTo limit depth loc e w u := by
  rw [normalizeProperties_eq] at h
  split at h
  · cases h
  · next members declared =>
    obtain ⟨names, blames⟩ := below members declared
    obtain ⟨m, hm, h⟩ := exists_of_members_error h
    obtain ⟨w, u, leads, points⟩ := blames m hm (Nat.succ_le_succ shallow) h
    exact ⟨.property m.1 :: w, u, .property declared (lookup_of_mem names hm) leads, points.step⟩
  · cases h
    have malformed : Malformed loc (.propertiesNotObject loc) := ⟨rfl, rfl⟩
    exact ⟨[], _, .here _, malformed.pointsTo _ _ _⟩

private theorem properties_nil (h : normalizeProperties limit depth loc keywords = .ok []) :
    keywords.lookup "properties" = none ∨ keywords.lookup "properties" = some (.object []) := by
  rw [normalizeProperties_eq] at h
  split at h
  · next absent => exact .inl absent
  · next members declared =>
    have names := (normalizeMembers_ok h).1
    rw [List.map_nil, eq_comm, List.map_eq_nil_iff] at names
    exact .inr (names ▸ declared)
  · cases h

private theorem items_none (h : normalizeItems limit depth loc keywords = .ok none) :
    keywords.lookup "items" = none := by
  rw [normalizeItems_eq] at h
  split at h
  · assumption
  · split at h
    · obtain ⟨_, -, h⟩ := bind_eq_ok.1 h
      cases h
    · cases h

private theorem object_blames (items : ∀ u, keywords.lookup "items" = some u → Blames u)
    (properties : ∀ members, keywords.lookup "properties" = some (.object members) →
      (members.map Prod.fst).Nodup ∧ ∀ m ∈ members, Blames m.2) : Blames (.object keywords) := by
  intro limit depth loc e bound h
  have here (malformed : Malformed loc e) :
      ∃ w u, RawLeads (.object keywords) w u ∧ PointsTo limit depth loc e w u :=
    ⟨[], _, .here _, malformed.pointsTo _ _ _⟩
  rw [normalize] at h
  split at h
  · next deep =>
    cases h
    exact ⟨[], _, .here _, pointsTo_of_deep (Nat.le_antisymm bound deep) _ _⟩
  · next shallow =>
    rw [Nat.not_lt] at shallow
    rcases bind_error_cases h with h | ⟨types, htypes, h⟩
    · exact here (readTypes_error h)
    rcases bind_error_cases h with h | ⟨o, ho, h⟩
    · exact here (outline_error h)
    have container := firstContainer?_eq htypes
    cases outlined_of_outline ho with
    | const _ | enum _ _ | scalar _ _ => cases h
    | array undecided first =>
        rw [first] at container
        rcases bind_error_cases h with h | ⟨found, hfound, h⟩
        · exact items_blame items shallow h
        · cases found with
          | none =>
              cases h
              have partless : Partless (.object keywords) :=
                .array undecided container (items_none hfound)
              exact ⟨[], _, .here _, partless.pointsTo (e := .noItems loc) rfl rfl _ _⟩
          | some _ => cases h
    | object undecided first =>
        rw [first] at container
        rcases bind_error_cases h with h | ⟨ps, hps, h⟩
        · exact properties_blame properties shallow h
        · cases ps with
          | nil =>
              cases h
              have partless : Partless (.object keywords) :=
                .object undecided container (properties_nil hps)
              exact ⟨[], _, .here _, partless.pointsTo (e := .noProperties loc) rfl rfl _ _⟩
          | cons _ _ =>
              rcases bind_error_cases h with h | ⟨_, -, h⟩
              · exact here (readRequired_error h)
              rcases bind_error_cases h with h | ⟨_, -, h⟩
              · exact items_blame items shallow h
              · cases h

private theorem noObject_blames {v : Json} (noObject : v.object? = none) : Blames v := by
  intro limit depth loc e bound h
  have refused : normalize limit depth loc v =
      if limit < depth then .error (.depthExceeded loc limit) else .error (.notObject loc) := by
    cases v with
    | object _ => cases noObject
    | _ => rfl
  rw [refused] at h
  split at h
  · next deep =>
    cases h
    exact ⟨[], v, .here v, pointsTo_of_deep (Nat.le_antisymm bound deep) _ _⟩
  · cases h
    have malformed : Malformed loc (.notObject loc) := ⟨rfl, rfl⟩
    exact ⟨[], v, .here v, malformed.pointsTo _ _ _⟩

-- The nodes under `properties` are two levels below their node, so the
-- induction carries both levels.
private theorem blames {v : Json} (hv : v.Distinct) :
    Blames v ∧ ∀ members, v.object? = some members → ∀ m ∈ members, Blames m.2 := by
  induction hv with
  | @value v keys distinct _ ihm _ =>
      refine ⟨?_, fun members hmembers m hm => (ihm members hmembers m hm).1⟩
      cases v with
      | object keywords =>
          refine object_blames ?_ ?_
          · exact fun u hu => (ihm keywords rfl _ (mem_of_lookup hu)).1
          · intro members declared
            have inside := mem_of_lookup declared
            have names := Json.distinct_object_iff.1 (distinct keywords rfl _ inside)
            exact ⟨names.1, (ihm keywords rfl _ inside).2 members rfl⟩
      | _ => exact noObject_blames rfl

end Errors
end Schema

namespace SchemaDocument

open Schema (Partless RawLeads Way)

variable {limit : Nat} {raw : Json} {e : SchemaError}

/-- The pointer of an error leads from the raw schema to a value in it, by properties and items.
If the schema is too deep, that value lies one step beyond the limit. If it is not supported, the
value is a node that lacks its parts, or the root, which is no object of properties. -/
theorem error_points_at_culprit (distinct : raw.Distinct) (h : ofJson limit raw = .error e) :
    ∃ w v, RawLeads raw w v ∧ e.pointer = Pointer.join w.tokens ∧
      Pointer.lookup? e.pointer raw = some v ∧
        (∃ before after, e.message = before ++ "'" ++ e.pointer ++ "'" ++ after) ∧
          (e.category = .depthExceeded →
            e = .depthExceeded w.tokens limit ∧ w.length = limit + 1) ∧
          (e.category = .unsupported → Partless v ∨
            e.pointer = "" ∧ ∃ s, Schema.normalize limit 0 [] raw = .ok s ∧
              s.properties? = none) := by
  have found {w : Way} {v : Json} (leads : RawLeads raw w v) (location : e.location = w.tokens) :
      e.pointer = Pointer.join w.tokens ∧ Pointer.lookup? e.pointer raw = some v := by
    rw [SchemaError.pointer, location, Pointer.lookup?, Pointer.tokens?_join]
    exact ⟨rfl, leads.resolve?⟩
  rcases bind_error_cases h with h | ⟨s, normalized, h⟩
  · obtain ⟨w, v, leads, location, deep, partless⟩ :=
      (Schema.blames distinct).1 (Nat.zero_le (limit + 1)) h
    rw [List.nil_append, Nat.zero_add] at *
    obtain ⟨pointer, resolved⟩ := found leads location
    exact ⟨w, v, leads, pointer, resolved, e.quoted_in_message, deep, fun h => .inl (partless h)⟩
  · split at h
    · cases h
    · next other =>
      cases h
      obtain ⟨pointer, resolved⟩ := found (w := []) (.here raw) rfl
      refine ⟨[], raw, .here raw, pointer, resolved, SchemaError.quoted_in_message _, nofun,
        fun _ => .inr ⟨Pointer.join_nil, s, normalized, ?_⟩⟩
      cases hs : s.properties? with
      | none => rfl
      | some ps =>
          rw [Schema.properties?] at hs
          split at hs
          · next shape => exact absurd shape (other _ _ _)
          · cases hs

/-- A list without items, under names that need escapes or have no characters. -/
private def partlessList : Json :=
  let group (name : String) (v : Json) : Json :=
    .object [("type", .string "object"), ("properties", .object [(name, v)])]
  let list : Json := .object
    [("type", .array [.string "null", .string "array", .string "object"]), ("enum", .array [])]
  group "" (group "a/b~1" list)

theorem error_points_at_partless_list : partlessList.Distinct ∧ ∃ e,
    ofJson 2 partlessList = .error e ∧ e.category = .unsupported ∧
      e.pointer = "/properties//properties/a~1b~01" ∧
        ∃ v, Pointer.lookup? e.pointer partlessList = some v ∧ Partless v := by
  have distinct : partlessList.Distinct := by simp [partlessList]
  have refused : ofJson 2 partlessList =
      .error (.noItems ["properties", "", "properties", "a/b~1"]) := by rfl
  obtain ⟨w, v, -, -, resolved, -, -, unsupported⟩ := error_points_at_culprit distinct refused
  refine ⟨distinct, _, refused, rfl, by decide +kernel, v, resolved, ?_⟩
  exact (unsupported rfl).resolve_right fun root => absurd root.1 (by decide +kernel)

end SchemaDocument
end FormTree
