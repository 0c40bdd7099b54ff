import FormTree.Proofs.Except
import FormTree.Proofs.Json.Reading
import FormTree.Proofs.Lookup
import FormTree.Proofs.Schema.Nodes

/-!
Accepted documents: what normalization makes of JSON whose objects hold every
key once. Every node of such a document is sound.
-/

namespace FormTree

theorem JsonType.eq_name_of_ofName? {name : String} {t : JsonType} (h : ofName? name = some t) :
    name = t.name := by
  have found := List.find?_some h
  exact (beq_iff_eq.1 found).symm

theorem TypeSet.contains_of_structural? {types : TypeSet} {t : JsonType}
    (h : types.structural? = some t) : types.contains t = true :=
  List.contains_iff_mem.2 (List.mem_of_find?_eq_some h)

namespace Schema

theorem normalizeItems_eq (limit depth : Nat) (loc : List String)
    (keywords : List (String × Json)) :
    normalizeItems limit depth loc keywords =
      match keywords.lookup "items" with
      | none => .ok none
      | some v =>
        if v.isObject then do return some (← normalize limit (depth + 1) (loc ++ ["items"]) v)
        else .error (.itemsNotObject loc) := by
  induction keywords with
  | nil => simp [normalizeItems]
  | cons m keywords ih =>
      obtain ⟨key, v⟩ := m
      rw [normalizeItems]
      split
      · next h => subst h; simp
      · next h =>
        have hk : ("items" == key) = false := by simpa using fun e => h e.symm
        rw [ih, List.lookup_cons, hk]

theorem normalizeProperties_eq (limit depth : Nat) (loc : List String)
    (keywords : List (String × Json)) :
    normalizeProperties limit depth loc keywords =
      match keywords.lookup "properties" with
      | none => .ok []
      | some (.object members) => normalizeMembers limit depth loc members
      | some _ => .error (.propertiesNotObject loc) := by
  induction keywords with
  | nil => simp [normalizeProperties]
  | cons m keywords ih =>
      obtain ⟨key, v⟩ := m
      by_cases h : key = "properties"
      · subst h
        cases v <;> simp [normalizeProperties]
      · have hk : ("properties" == key) = false := by simpa using fun e => h e.symm
        have skip : normalizeProperties limit depth loc ((key, v) :: keywords) =
            normalizeProperties limit depth loc keywords := by
          cases v <;> simp [normalizeProperties, h]
        rw [skip, ih, List.lookup_cons, hk]

theorem normalizeMembers_ok {limit depth : Nat} {loc : List String}
    {members : List (String × Json)} {properties : List (String × Schema)}
    (h : normalizeMembers limit depth loc members = .ok properties) :
    properties.map Prod.fst = members.map Prod.fst ∧
      ∀ p ∈ properties, ∃ m ∈ members,
        normalize limit (depth + 1) (loc ++ ["properties", m.1]) m.2 = .ok p.2 := by
  induction members generalizing properties with
  | nil =>
      cases h
      simp
  | cons m members ih =>
      obtain ⟨name, v⟩ := m
      simp only [normalizeMembers, bind_eq_ok] at h
      obtain ⟨s, hs, rest, hrest, h⟩ := h
      cases h
      obtain ⟨names, nodes⟩ := ih hrest
      refine ⟨by simp [names], List.forall_mem_cons.2 ⟨?_, ?_⟩⟩
      · exact ⟨(name, v), List.mem_cons_self, hs⟩
      · intro p hp
        obtain ⟨m, hm, hn⟩ := nodes p hp
        exact ⟨m, List.mem_cons_of_mem _ hm, hn⟩

/-- Neither a constant nor an enumeration decides what a node is. -/
structure Undecided (keywords : List (String × Json)) : Prop where
  const : keywords.lookup "const" = none
  enum : keywords.lookup "enum" = none ∨ keywords.lookup "enum" = some (.array [])

/-- What decides the outline of a node. -/
inductive Outlined (types : TypeSet) (keywords : List (String × Json)) : Outline → Prop
  | const {value : Json} (found : keywords.lookup "const" = some value) :
      Outlined types keywords (.const value)
  | enum {values : List Json} (const : keywords.lookup "const" = none)
      (found : keywords.lookup "enum" = some (.array values)) :
      Outlined types keywords (.enum values)
  | scalar (undecided : Undecided keywords) (first : types.structural? = none) :
      Outlined types keywords .scalar
  | array (undecided : Undecided keywords) (first : types.structural? = some .array) :
      Outlined types keywords .array
  | object (undecided : Undecided keywords) (first : types.structural? = some .object) :
      Outlined types keywords .object

private theorem readEnum_ok {loc : List String} {v? : Option Json} {found : Option (List Json)}
    (h : readEnum loc v? = .ok found) :
    (found = none ∧ (v? = none ∨ v? = some (.array []))) ∨
      ∃ values, found = some values ∧ v? = some (.array values) := by
  rw [readEnum.eq_def] at h
  split at h
  · cases h
    exact .inl ⟨rfl, .inl rfl⟩
  · cases h
    exact .inl ⟨rfl, .inr rfl⟩
  · cases h
    exact .inr ⟨_, rfl, rfl⟩
  · cases h

theorem outlined_of_outline {loc : List String} {types : TypeSet}
    {keywords : List (String × Json)} {o : Outline} (h : outline loc types keywords = .ok o) :
    Outlined types keywords o := by
  rw [outline] at h
  split at h
  · next found =>
    cases h
    exact .const found
  · next const =>
    obtain ⟨values?, hvalues, h⟩ := bind_eq_ok.1 h
    rcases readEnum_ok hvalues with ⟨rfl, enum⟩ | ⟨values, rfl, found⟩
    · have undecided : Undecided keywords := ⟨const, enum⟩
      dsimp only at h
      split at h
      · next first =>
        cases h
        exact .scalar undecided first
      · next first =>
        cases h
        exact .array undecided first
      · next t other first =>
        cases h
        have container : t = .array ∨ t = .object := by simpa using List.find?_some first
        obtain rfl := container.resolve_left other
        exact .object undecided first
    · cases h
      exact .enum const found

/-- What a normalized node was made from. -/
theorem normalize_ok {limit depth : Nat} {loc : List String} {v : Json} {s : Schema}
    (h : normalize limit depth loc v = .ok s) :
    ∃ keywords, v = .object keywords ∧
      (∀ i, s.items? = some i → s.types.contains .array = true) ∧
      (∀ ps, s.properties? = some ps → s.types.contains .object = true ∧
        ∃ members, keywords.lookup "properties" = some (.object members) ∧
          normalizeMembers limit depth loc members = .ok ps) ∧
      ∀ r, s.items? = some r ∨ s.rest? = some r →
        ∃ u, keywords.lookup "items" = some u ∧
          normalize limit (depth + 1) (loc ++ ["items"]) u = .ok r := by
  cases v with
  | object keywords =>
      refine ⟨keywords, rfl, ?_⟩
      have items {r : Schema} (h : normalizeItems limit depth loc keywords = .ok (some r)) :
          ∃ u, keywords.lookup "items" = some u ∧
            normalize limit (depth + 1) (loc ++ ["items"]) u = .ok r := by
        rw [normalizeItems_eq] at h
        split at h
        · cases h
        · next u hu =>
          split at h
          · obtain ⟨r', hr, h⟩ := bind_eq_ok.1 h
            cases h
            exact ⟨u, hu, hr⟩
          · cases h
      rw [normalize] at h
      split at h
      · cases h
      obtain ⟨types, -, h⟩ := bind_eq_ok.1 h
      obtain ⟨o, ho, h⟩ := bind_eq_ok.1 h
      cases o with
      | const _ | enum _ | scalar =>
          cases h
          exact ⟨nofun, nofun, by rintro r (h | h) <;> cases h⟩
      | array =>
          obtain ⟨found, hfound, h⟩ := bind_eq_ok.1 h
          cases found with
          | none => cases h
          | some found =>
              cases h
              obtain _ | _ | _ | ⟨-, first⟩ := outlined_of_outline ho
              refine ⟨fun _ _ => TypeSet.contains_of_structural? first, nofun, ?_⟩
              rintro r (h | h)
              · cases h
                exact items hfound
              · cases h
      | object =>
          obtain ⟨properties, hproperties, h⟩ := bind_eq_ok.1 h
          cases properties with
          | nil => cases h
          | cons p properties =>
              obtain ⟨required, -, h⟩ := bind_eq_ok.1 h
              obtain ⟨found, hfound, h⟩ := bind_eq_ok.1 h
              cases h
              refine ⟨nofun, ?_, ?_⟩
              · intro ps hps
                cases hps
                obtain _ | _ | _ | _ | ⟨-, first⟩ := outlined_of_outline ho
                refine ⟨TypeSet.contains_of_structural? first, ?_⟩
                rw [normalizeProperties_eq] at hproperties
                split at hproperties
                · cases hproperties
                · next members hmembers => exact ⟨members, hmembers, hproperties⟩
                · cases hproperties
              · rintro r (h | h)
                · cases h
                · cases h
                  exact items hfound
  | _ => rw [normalize] at h; split at h <;> cases h; nofun

/-- Whatever a value normalizes to is sound at every node. -/
private def NormalizesSoundly (v : Json) : Prop :=
  ∀ ⦃limit depth loc s⦄, normalize limit depth loc v = .ok s → s.Everywhere Sound

-- The nodes under `properties` are two levels below their node, so the
-- induction carries both levels.
private theorem normalizesSoundly {v : Json} (hv : v.Distinct) :
    NormalizesSoundly v ∧
      ∀ members, v.object? = some members → ∀ m ∈ members, NormalizesSoundly m.2 := by
  induction hv with
  | value keys distinct _ ihm _ =>
      refine ⟨?_, fun members hmembers m hm => (ihm members hmembers m hm).1⟩
      intro limit depth loc s h
      obtain ⟨keywords, rfl, array, object, items⟩ := normalize_ok h
      refine .node ⟨array, fun ps hps => (object ps hps).1, ?_⟩ ?_ ?_ ?_
      · rw [names]
        cases hps : s.properties? with
        | none => exact List.nodup_nil
        | some ps =>
            obtain ⟨-, members, hmembers, hok⟩ := object ps hps
            rw [Option.getD_some, (normalizeMembers_ok hok).1]
            have inside := distinct keywords rfl _ (mem_of_lookup hmembers)
            exact (Json.distinct_object_iff.1 inside).1
      · intro ps hps p hp
        obtain ⟨-, members, hmembers, hok⟩ := object ps hps
        obtain ⟨m, hm, hn⟩ := (normalizeMembers_ok hok).2 p hp
        exact (ihm keywords rfl _ (mem_of_lookup hmembers)).2 members rfl m hm hn
      · intro i hi
        obtain ⟨u, hu, hn⟩ := items i (.inl hi)
        exact (ihm keywords rfl _ (mem_of_lookup hu)).1 hn
      · intro r hr
        obtain ⟨u, hu, hn⟩ := items r (.inr hr)
        exact (ihm keywords rfl _ (mem_of_lookup hu)).1 hn

end Schema

namespace SchemaDocument

/-- The document of a schema in which no object holds a key twice. -/
def Accepted (d : SchemaDocument) : Prop :=
  ∃ limit raw, raw.Distinct ∧ ofJson limit raw = .ok d

/-- The documents of schemas that are read from a text are accepted. -/
theorem accepted_of_read? {nesting limit : Nat} {text : String} {raw : Json} {d : SchemaDocument}
    (read : Json.read? nesting text = some raw) (h : ofJson limit raw = .ok d) : d.Accepted :=
  ⟨limit, raw, Json.distinct_of_read? read, h⟩

theorem Accepted.sound {d : SchemaDocument} (h : d.Accepted) : d.root.Everywhere Schema.Sound := by
  obtain ⟨limit, raw, hraw, h⟩ := h
  obtain ⟨root, hroot, h⟩ := bind_eq_ok.1 h
  have : d.root = root := by
    split at h
    · cases h; rfl
    · cases h
  exact this ▸ (Schema.normalizesSoundly hraw).1 hroot

end SchemaDocument
end FormTree
