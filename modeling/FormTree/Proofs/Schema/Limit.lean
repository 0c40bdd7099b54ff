import FormTree.Proofs.Schema.Accepted

/-!
What the limit on nesting decides. A schema that is accepted under one limit is
accepted under every other one that no node of it goes beyond, and it normalizes to
the same nodes. Under a lower limit it is refused at the first node of the traversal
that is one step too deep.
-/

namespace FormTree
namespace Schema

/-- A step from a node to one right below it. -/
inductive Step where
  | property (name : String)
  | items
deriving DecidableEq

def Step.tokens : Step → List String
  | .property name => ["properties", name]
  | .items => ["items"]

/-- The steps from a node to one below it. -/
abbrev Way := List Step

/-- The reference tokens that lead along a way. -/
def Way.tokens (w : Way) : List String := w.flatMap Step.tokens

mutual

/-- The ways from a node to itself and to the nodes below, in the order of the traversal: the
properties as they are declared, each with all that is below it, and then the items. -/
def ways : Schema → List Way
  | ⟨_, _, _, _, _, shape⟩ => [] :: waysIn shape

def waysIn : Shape Schema → List Way
  | .const _ | .enum _ | .scalar => []
  | .array items => (ways items).map (.items :: ·)
  | .object properties _ rest => waysToProperties properties ++ waysToRest rest

def waysToProperties : List (String × Schema) → List Way
  | [] => []
  | (name, s) :: properties => (ways s).map (.property name :: ·) ++ waysToProperties properties

def waysToRest : Option Schema → List Way
  | none => []
  | some s => (ways s).map (.items :: ·)

end

theorem ways_eq (s : Schema) : s.ways = [] :: waysIn s.shape := by
  cases s
  rfl

theorem waysToProperties_eq (properties : List (String × Schema)) :
    waysToProperties properties =
      properties.flatMap fun m => m.2.ways.map (.property m.1 :: ·) := by
  induction properties with
  | nil => rfl
  | cons m properties ih =>
      obtain ⟨name, s⟩ := m
      rw [waysToProperties, ih, List.flatMap_cons]

/-- A way leads to a node, by the properties and items of the nodes on it. The items of an object
are the ones for entries that it does not declare. -/
inductive Leads : Schema → Way → Schema → Prop
  | here (s : Schema) : Leads s [] s
  | property {s n : Schema} {properties : List (String × Schema)} {m : String × Schema} {w : Way}
      (declared : s.properties? = some properties) (member : m ∈ properties)
      (below : Leads m.2 w n) : Leads s (.property m.1 :: w) n
  | items {s i n : Schema} {w : Way} (held : s.items? = some i ∨ s.rest? = some i)
      (below : Leads i w n) : Leads s (.items :: w) n

/-- The ways are the ones that lead to a node. -/
theorem mem_ways_iff {s : Schema} {w : Way} : w ∈ s.ways ↔ ∃ n, Leads s w n := by
  constructor
  · revert w
    refine induct (motive := fun s => ∀ {w}, w ∈ s.ways → ∃ n, Leads s w n) ?_ s
    intro s properties items rest w hw
    rw [ways_eq, List.mem_cons] at hw
    obtain ⟨types, title, description, default, format, shape⟩ := s
    rcases hw with rfl | hw
    · exact ⟨_, .here _⟩
    cases shape with
    | const _ | enum _ | scalar => cases hw
    | array i =>
        obtain ⟨w', hw', rfl⟩ := List.mem_map.1 hw
        obtain ⟨n, hn⟩ := items i rfl hw'
        exact ⟨n, .items (.inl rfl) hn⟩
    | object ps required found =>
        rw [waysIn, waysToProperties_eq] at hw
        rcases List.mem_append.1 hw with hw | hw
        · obtain ⟨m, hm, hw⟩ := List.mem_flatMap.1 hw
          obtain ⟨w', hw', rfl⟩ := List.mem_map.1 hw
          obtain ⟨n, hn⟩ := properties ps rfl m hm hw'
          exact ⟨n, .property rfl hm hn⟩
        · cases found with
          | none => cases hw
          | some i =>
              obtain ⟨w', hw', rfl⟩ := List.mem_map.1 hw
              obtain ⟨n, hn⟩ := rest i rfl hw'
              exact ⟨n, .items (.inr rfl) hn⟩
  · rintro ⟨n, leads⟩
    induction leads with
    | here s =>
        rw [ways_eq]
        exact List.mem_cons_self
    | @property s _ ps m w declared member _ ih =>
        obtain ⟨types, title, description, default, format, shape⟩ := s
        cases shape with
        | object ps required found =>
            cases declared
            rw [ways_eq, waysIn, waysToProperties_eq]
            refine List.mem_cons_of_mem _ (List.mem_append_left _ (List.mem_flatMap.2 ?_))
            exact ⟨m, member, List.mem_map_of_mem ih⟩
        | _ => cases declared
    | @items s i _ w held _ ih =>
        obtain ⟨types, title, description, default, format, shape⟩ := s
        rw [ways_eq]
        refine List.mem_cons_of_mem _ ?_
        cases shape with
        | array i =>
            rcases held with held | held <;> cases held
            exact List.mem_map_of_mem ih
        | object ps required found =>
            rcases held with held | held <;> cases held
            exact List.mem_append_right _ (List.mem_map_of_mem ih)
        | _ => rcases held with held | held <;> cases held

/-- Refuses the first of some ways, from a place at a depth on, that goes beyond a limit. -/
def keepWithin (limit depth : Nat) (loc : List String) (ways : List Way) :
    Except SchemaError Unit :=
  match ways.find? (fun w => limit < depth + w.length) with
  | none => .ok ()
  | some w => .error (.depthExceeded (loc ++ w.tokens) limit)

section Walk

variable {limit limit' depth : Nat} {loc : List String}

theorem keepWithin_ok_iff (limit depth : Nat) (loc : List String) {ways : List Way} :
    keepWithin limit depth loc ways = .ok () ↔ ∀ w ∈ ways, depth + w.length ≤ limit := by
  rw [keepWithin]
  cases found : ways.find? (fun w => limit < depth + w.length) with
  | none => simpa using found
  | some w =>
      have deep : limit < depth + w.length := by simpa using List.find?_some found
      refine iff_of_false nofun fun h => ?_
      exact Nat.not_le.2 deep (h w (List.mem_of_find?_eq_some found))

theorem keepWithin_here (limit depth : Nat) (loc : List String) (ways : List Way) :
    keepWithin limit depth loc ([] :: ways) =
      if limit < depth then .error (.depthExceeded loc limit)
      else keepWithin limit depth loc ways := by
  by_cases deep : limit < depth
  · simp [keepWithin, deep, Way.tokens]
  · simp [keepWithin, deep]

theorem keepWithin_append (limit depth : Nat) (loc : List String) (ways ways' : List Way) :
    keepWithin limit depth loc (ways ++ ways') =
      keepWithin limit depth loc ways >>= fun _ => keepWithin limit depth loc ways' := by
  rw [keepWithin, List.find?_append, keepWithin]
  cases ways.find? (fun w => limit < depth + w.length) with
  | none => rfl
  | some w => rfl

/-- Ways that begin with one step go on from the place that the step leads to. -/
theorem keepWithin_step (limit depth : Nat) (loc : List String) (step : Step) (ways : List Way) :
    keepWithin limit depth loc (ways.map (step :: ·)) =
      keepWithin limit (depth + 1) (loc ++ step.tokens) ways := by
  have shift : (fun w : Way => decide (limit < depth + w.length)) ∘ (step :: ·) =
      fun w => decide (limit < depth + 1 + w.length) := by
    funext w
    rw [Function.comp_apply, List.length_cons, Nat.add_right_comm, Nat.add_assoc]
  rw [keepWithin, keepWithin, List.find?_map, shift]
  cases ways.find? (fun w => limit < depth + 1 + w.length) with
  | none => rfl
  | some w => simp [Way.tokens]

/-- Whatever normalizes to the node under one limit does so under another, as far as that one
allows. -/
private def Decided (s : Schema) : Prop :=
  ∀ ⦃limit limit' depth loc v⦄, normalize limit' depth loc v = .ok s →
    normalize limit depth loc v = do
      keepWithin limit depth loc s.ways
      return s

private theorem items_decided {keywords : List (String × Json)} {found : Option Schema}
    (below : ∀ s, found = some s → Decided s)
    (h : normalizeItems limit' depth loc keywords = .ok found) :
    normalizeItems limit depth loc keywords = do
      keepWithin limit depth loc (waysToRest found)
      return found := by
  rw [normalizeItems_eq] at h ⊢
  split at h
  · cases h
    rfl
  · split at h
    · next object =>
      obtain ⟨s, hs, h⟩ := bind_eq_ok.1 h
      cases h
      rw [if_pos object, below s rfl hs, waysToRest, keepWithin_step, bind_assoc]
      rfl
    · cases h

private theorem members_decided {members : List (String × Json)}
    {properties : List (String × Schema)} (below : ∀ m ∈ properties, Decided m.2)
    (h : normalizeMembers limit' depth loc members = .ok properties) :
    normalizeMembers limit depth loc members = do
      keepWithin limit depth loc (waysToProperties properties)
      return properties := by
  induction members generalizing properties with
  | nil =>
      cases h
      rfl
  | cons m members ih =>
      obtain ⟨name, v⟩ := m
      obtain ⟨s, hs, h⟩ := bind_eq_ok.1 h
      obtain ⟨rest, hrest, h⟩ := bind_eq_ok.1 h
      cases h
      rw [List.forall_mem_cons] at below
      rw [normalizeMembers, below.1 hs, ih below.2 hrest, waysToProperties, keepWithin_append,
        keepWithin_step]
      simp only [bind_assoc, pure_bind]
      rfl

private theorem properties_decided {keywords : List (String × Json)}
    {properties : List (String × Schema)} (below : ∀ m ∈ properties, Decided m.2)
    (h : normalizeProperties limit' depth loc keywords = .ok properties) :
    normalizeProperties limit depth loc keywords = do
      keepWithin limit depth loc (waysToProperties properties)
      return properties := by
  rw [normalizeProperties_eq] at h ⊢
  split at h
  · cases h
    rfl
  · exact members_decided below h
  · cases h

private theorem decided (s : Schema) : Decided s := by
  refine induct ?_ s
  intro s properties items rest limit limit' depth loc v h
  obtain ⟨keywords, rfl, -⟩ := normalize_ok h
  rw [ways_eq, keepWithin_here]
  rw [normalize] at h ⊢
  split at h
  · cases h
  by_cases deep : limit < depth
  · rw [if_pos deep, if_pos deep]
    rfl
  rw [if_neg deep, if_neg deep]
  obtain ⟨types, htypes, h⟩ := bind_eq_ok.1 h
  obtain ⟨o, ho, h⟩ := bind_eq_ok.1 h
  rw [bind_of_ok htypes, bind_of_ok ho]
  cases o with
  | const _ | enum _ | scalar =>
      cases h
      rfl
  | array =>
      obtain ⟨found, hfound, h⟩ := bind_eq_ok.1 h
      cases found with
      | none => cases h
      | some found =>
          cases h
          rw [items_decided (fun s hs => items s hs) hfound]
          simp only [bind_assoc, pure_bind, waysIn]
          rfl
  | object =>
      obtain ⟨members, hmembers, h⟩ := bind_eq_ok.1 h
      cases members with
      | nil => cases h
      | cons m members =>
          obtain ⟨required, hrequired, h⟩ := bind_eq_ok.1 h
          obtain ⟨found, hfound, h⟩ := bind_eq_ok.1 h
          cases h
          rw [properties_decided (properties _ rfl) hmembers]
          simp only [bind_assoc, pure_bind, waysIn, keepWithin_append]
          rw [bind_of_ok hrequired, items_decided (fun s hs => rest s hs) hfound]
          simp only [bind_assoc, pure_bind]
          rfl

end Walk

section First

/-- The first of some ways that goes beyond a limit does so by one step. -/
private def Gradual (ways : List Way) : Prop :=
  ∀ limit, (ways.find? fun w => limit < w.length) = ways.find? fun w => w.length = limit + 1

private theorem Gradual.append {u v : List Way} (hu : Gradual u) (hv : Gradual v) :
    Gradual (u ++ v) := by
  intro limit
  rw [List.find?_append, List.find?_append, hu limit, hv limit]

private theorem Gradual.step {ways : List Way} (h : Gradual ([] :: ways)) (step : Step) :
    Gradual (([] :: ways).map (step :: ·)) := by
  intro limit
  cases limit with
  | zero => simp
  | succ limit =>
      have beyond : (fun w : Way => decide (limit + 1 < w.length)) ∘ (step :: ·) =
          fun w => decide (limit < w.length) := by
        funext w
        exact decide_eq_decide.2 Nat.add_lt_add_iff_right
      have exactly : (fun w : Way => decide (w.length = limit + 1 + 1)) ∘ (step :: ·) =
          fun w => decide (w.length = limit + 1) := by
        funext w
        exact decide_eq_decide.2 Nat.add_right_cancel_iff
      rw [List.find?_map, List.find?_map, beyond, exactly, h limit]

private theorem gradual_ways (s : Schema) : Gradual s.ways := by
  refine induct (motive := fun s => Gradual s.ways) ?_ s
  intro s properties items rest
  have here {ways : List Way} (h : Gradual ways) : Gradual ([] :: ways) := fun limit => by
    simpa using h limit
  have below {s : Schema} (h : Gradual s.ways) (step : Step) :
      Gradual (s.ways.map (step :: ·)) := by
    rw [ways_eq] at h ⊢
    exact h.step step
  have nil : Gradual [] := fun _ => rfl
  obtain ⟨types, title, description, default, format, shape⟩ := s
  rw [ways_eq]
  apply here
  cases shape with
  | const _ | enum _ | scalar => exact nil
  | array i => exact below (items i rfl) .items
  | object ps required found =>
      refine .append ?_ ?_
      · replace properties := properties ps rfl
        clear items rest
        induction ps with
        | nil => exact nil
        | cons m ps ih =>
            rw [List.forall_mem_cons] at properties
            exact (below properties.1 _).append (ih properties.2)
      · cases found with
        | none => exact nil
        | some i => exact below (rest i rfl) .items

end First

end Schema

namespace SchemaDocument

open Schema (Leads Way keepWithin)

variable {limit limit' : Nat} {raw : Json} {d : SchemaDocument}

/-- A document that is accepted under one limit is accepted under another as far as its nodes keep
within that one. -/
private theorem ofJson_eq (accepted : ofJson limit' raw = .ok d) (limit : Nat) :
    ofJson limit raw = keepWithin limit 0 [] d.root.ways >>= fun _ => .ok d := by
  obtain ⟨root, hroot, h⟩ := bind_eq_ok.1 accepted
  obtain ⟨types, title, description, default, format, shape⟩ := root
  cases shape with
  | object properties required rest =>
      cases h
      rw [ofJson, Schema.decided _ hroot, bind_assoc]
      rfl
  | _ => cases h

private theorem ofJson_ok_iff (accepted : ofJson limit' raw = .ok d) :
    ofJson limit raw = .ok d ↔ ∀ w n, Leads d.root w n → w.length ≤ limit := by
  have within : (∀ w n, Leads d.root w n → w.length ≤ limit) ↔
      ∀ w ∈ d.root.ways, 0 + w.length ≤ limit := by
    simp only [Nat.zero_add, Schema.mem_ways_iff, forall_exists_index]
  rw [within, ← Schema.keepWithin_ok_iff limit 0 [], ofJson_eq accepted]
  cases keepWithin limit 0 [] d.root.ways with
  | ok _ => exact iff_of_true rfl rfl
  | error _ => exact iff_of_false nofun nofun

/-- Which documents are accepted is decided by the limit and by how deep their nodes lie. What is
accepted stays so, as it is, under every higher limit. Under a lower one it is accepted iff none of
its nodes lies beyond, and otherwise refused at the first node that lies one step too deep. -/
theorem limit_decides_acceptance (le : limit ≤ limit') (raw : Json) :
    (∀ d, ofJson limit raw = .ok d → ofJson limit' raw = .ok d) ∧
      ∀ d, ofJson limit' raw = .ok d →
        ((∃ d', ofJson limit raw = .ok d') ↔ ∀ w n, Leads d.root w n → w.length ≤ limit) ∧
        ((¬∃ d', ofJson limit raw = .ok d') → ∃ w,
          (d.root.ways.find? fun w => w.length = limit + 1) = some w ∧
          ofJson limit raw = .error (.depthExceeded w.tokens limit)) := by
  refine ⟨fun d h => ?_, fun d h => ?_⟩
  · have within := (ofJson_ok_iff h).1 h
    exact (ofJson_ok_iff h).2 fun w n leads => Nat.le_trans (within w n leads) le
  · have only {d'} (h' : ofJson limit raw = .ok d') : d' = d := by
      obtain ⟨_, _, h'⟩ := bind_eq_ok.1 (ofJson_eq h limit ▸ h')
      exact (Except.ok.inj h').symm
    refine ⟨⟨fun ⟨d', h'⟩ => (ofJson_ok_iff h).1 (only h' ▸ h'), fun within =>
      ⟨d, (ofJson_ok_iff h).2 within⟩⟩, fun refused => ?_⟩
    rw [ofJson_eq h limit, keepWithin] at refused ⊢
    simp only [Nat.zero_add, Schema.gradual_ways d.root limit, List.nil_append] at refused ⊢
    cases found : d.root.ways.find? (fun w => w.length = limit + 1) with
    | none =>
        rw [found] at refused
        exact absurd ⟨d, rfl⟩ refused
    | some w => exact ⟨w, rfl, rfl⟩

/-- Limits that are objects with lists in them, and texts beside them that are not declared. -/
private def limitsAndTexts : Json :=
  let bounds : Json := .object [("type", .string "array"),
    ("items", .object [("type", .string "integer")])]
  .object [("type", .string "object"),
    ("properties", .object [
      ("name", .object [("type", .string "string")]),
      ("limits", .object [("type", .string "object"),
        ("properties", .object [("bounds", bounds)]),
        ("items", .object [("type", .string "string")])])]),
    ("items", .object [("type", .string "array"),
      ("items", .object [("type", .string "string")])])]

theorem limit_decides_acceptance_of_limits : ∃ d, 1 ≤ 3 ∧ 3 ≤ 4 ∧
    ofJson 3 limitsAndTexts = .ok d ∧ ofJson 4 limitsAndTexts = .ok d ∧
      (¬∃ d', ofJson 1 limitsAndTexts = .ok d') ∧
      (∃ n, Leads d.root [.items, .items] n) ∧
      (d.root.ways.find? fun w => w.length = 1 + 1) =
          some [.property "limits", .property "bounds"] ∧
        ofJson 1 limitsAndTexts =
          .error (.depthExceeded ["properties", "limits", "properties", "bounds"] 1) := by
  cases accepted : ofJson 3 limitsAndTexts with
  | error e => cases accepted
  | ok d =>
      have refused : ¬∃ d', ofJson 1 limitsAndTexts = .ok d' := nofun
      obtain ⟨w, hw, h⟩ :=
        ((limit_decides_acceptance (by decide : 1 ≤ 3) limitsAndTexts).2 d accepted).2 refused
      have kept := (limit_decides_acceptance (by decide : 3 ≤ 4) limitsAndTexts).1 d accepted
      cases accepted
      cases hw
      refine ⟨_, by decide, by decide, rfl, kept, refused, ?_, rfl, h⟩
      exact Schema.mem_ways_iff.1 (by decide)

end SchemaDocument
end FormTree
