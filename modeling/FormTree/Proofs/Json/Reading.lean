import FormTree.Json.Reader
import FormTree.Proofs.Json.Distinct
import Mathlib.Tactic.SplitIfs

/-!
What a text is read as. What holds of words and texts, and of containers from their
parts, holds of all that the reader has put together at any point of a text. So no
object that is read holds a key twice.
-/

namespace FormTree.Json

namespace Reader

/-- What holds of the words and texts that are read, and of a container if it holds of its parts. -/
structure Builds (P : Json → Prop) : Prop where
  word : ∀ {word v}, wordValue? word = some v → P v
  text : ∀ text, P (.string text)
  array : ∀ {items}, (∀ v ∈ items, P v) → P (.array items)
  object : ∀ {members}, (members.map Prod.fst).Nodup → (∀ m ∈ members, P m.2) → P (.object members)

/-- A word is `null`, a boolean or a number. -/
theorem wordValue?_cases {word : List Char} {v : Json} (h : wordValue? word = some v) :
    v = .null ∨ (∃ b, v = .bool b) ∨ ∃ n m, Numeral.number? n = some m ∧ v = .number m := by
  unfold wordValue? at h
  split_ifs at h
  · exact .inl (Option.some.inj h).symm
  · exact .inr (.inl ⟨true, (Option.some.inj h).symm⟩)
  · exact .inr (.inl ⟨false, (Option.some.inj h).symm⟩)
  · obtain ⟨n, -, h⟩ := Option.bind_eq_some_iff.1 h
    split at h
    · obtain ⟨m, number, rfl⟩ := Option.map_eq_some_iff.1 h
      exact .inr (.inr ⟨n, m, number, rfl⟩)
    · cases h

/-- `P` holds of what an open container has so far, under different keys. -/
def Frame.Holds (P : Json → Prop) : Frame → Prop
  | .array items => ∀ v ∈ items, P v
  | .object members _ => (members.map Prod.fst).Nodup ∧ ∀ m ∈ members, P m.2

/-- `P` holds of everything that has been put together. -/
structure State.Holds (P : Json → Prop) (s : State) : Prop where
  stack : ∀ f ∈ s.stack, f.Holds P
  result : ∀ v, s.result = some v → P v

variable {P : Json → Prop} {limit : Nat} {s t : State} {f : Frame} {rest : List Frame} {v : Json}
  {c : Char}

theorem State.Holds.top (hs : s.Holds P) (h : s.stack = f :: rest) :
    f.Holds P ∧ ∀ g ∈ rest, g.Holds P :=
  List.forall_mem_cons.1 (h ▸ hs.stack)

theorem State.Holds.place (hs : s.Holds P) (hv : P v) (h : place s v = some t) : t.Holds P := by
  unfold Reader.place at h
  split at h
  · cases h
    exact ⟨hs.stack, fun _ h => Option.some.inj h ▸ hv⟩
  · next here =>
    cases h
    obtain ⟨held, below⟩ := hs.top here
    exact ⟨List.forall_mem_cons.2 ⟨List.forall_mem_cons.2 ⟨hv, held⟩, below⟩, hs.result⟩
  · next here =>
    cases h
    obtain ⟨⟨nodup, held⟩, below⟩ := hs.top here
    refine ⟨List.forall_mem_cons.2 ⟨⟨Entries.nodup_keys_put nodup, fun m hm => ?_⟩, below⟩,
      hs.result⟩
    rcases Entries.mem_put hm with new | old
    · exact new ▸ hv
    · exact held m old
  · cases h

theorem State.Holds.openFrame (hs : s.Holds P) (hf : f.Holds P)
    (h : openFrame limit s f = some t) : t.Holds P := by
  unfold Reader.openFrame at h
  split at h
  · cases h
    exact ⟨List.forall_mem_cons.2 ⟨hf, hs.stack⟩, hs.result⟩
  · cases h

/-- A container that ends is placed in the one around it. -/
theorem State.Holds.close (hs : s.Holds P) (here : s.stack = f :: rest)
    (hv : f.Holds P → P v) (h : Reader.place { s with stack := rest } v = some t) : t.Holds P := by
  obtain ⟨held, below⟩ := hs.top here
  exact State.Holds.place (s := { s with stack := rest }) ⟨below, hs.result⟩ (hv held) h

section Builds

variable (builds : Builds P)
include builds

theorem State.Holds.placeText {text : String} (hs : s.Holds P) (h : placeText s text = some t) :
    t.Holds P := by
  unfold Reader.placeText at h
  split at h
  · exact hs.place (builds.text text) h
  · split at h
    · next here =>
      cases h
      obtain ⟨held, below⟩ := hs.top here
      exact ⟨List.forall_mem_cons.2 ⟨held, below⟩, hs.result⟩
    · next here =>
      cases h
      obtain ⟨held, below⟩ := hs.top here
      exact ⟨List.forall_mem_cons.2 ⟨held, below⟩, hs.result⟩
    · cases h

theorem State.Holds.placeWord {reversed : List Char} (hs : s.Holds P)
    (h : placeWord s reversed = some t) : t.Holds P := by
  unfold Reader.placeWord at h
  split at h
  · obtain ⟨v, hv, h⟩ := Option.bind_eq_some_iff.1 h
    exact State.Holds.place (s := { s with scan := .between }) ⟨hs.stack, hs.result⟩
      (builds.word hv) h
  · cases h

theorem State.Holds.between (hs : s.Holds P) (h : between limit s c = some t) : t.Holds P := by
  have array {items : List Json} (held : (Frame.array items).Holds P) : P (.array items.reverse) :=
    builds.array fun v hv => held v (List.mem_reverse.1 hv)
  unfold Reader.between at h
  split_ifs at h
  · cases h
    exact hs
  · cases h
    exact ⟨hs.stack, hs.result⟩
  · exact hs.openFrame (f := .array []) (List.forall_mem_nil _) h
  · exact hs.openFrame (f := .object [] none) ⟨.nil, List.forall_mem_nil _⟩ h
  · split at h
    · next here => exact hs.close here array h
    · next here => exact hs.close here array h
    · cases h
  · split at h
    · next here => exact hs.close here (fun held => builds.object held.1 held.2) h
    · next here => exact hs.close here (fun held => builds.object held.1 held.2) h
    · cases h
  · split at h
    · cases h
      exact ⟨hs.stack, hs.result⟩
    · cases h
      exact ⟨hs.stack, hs.result⟩
    · cases h
  · cases h
    exact ⟨hs.stack, hs.result⟩
  · cases h
    exact ⟨hs.stack, hs.result⟩

/-- Every character keeps what holds of the values put together so far. -/
theorem State.Holds.step (hs : s.Holds P) (h : step limit s c = some t) : t.Holds P := by
  have scanned (scan : Scan) : State.Holds P { s with scan } := ⟨hs.stack, hs.result⟩
  unfold Reader.step at h
  split at h
  · exact hs.between builds h
  · split at h
    · obtain ⟨u, hu, h⟩ := Option.bind_eq_some_iff.1 h
      exact (hs.placeWord builds hu).between builds h
    · cases h
      exact scanned _
  · split_ifs at h
    · exact (scanned .between).placeText builds h
    · cases h
      exact scanned _
    · cases h
      exact scanned _
  · split at h
    · cases h
      exact scanned _
    · obtain ⟨e, -, rfl⟩ := Option.map_eq_some_iff.1 h
      exact scanned _
  · split at h
    · cases h
      exact scanned _
    · obtain ⟨n, -, h⟩ := Option.bind_eq_some_iff.1 h
      obtain ⟨scan, -, rfl⟩ := Option.map_eq_some_iff.1 h
      exact scanned _
  · split_ifs at h
    · cases h
      exact scanned _
    · cases h
      exact scanned _

theorem State.Holds.foldlM {cs : List Char} (hs : s.Holds P)
    (h : cs.foldlM (Reader.step limit) s = some t) : t.Holds P := by
  induction cs generalizing s with
  | nil =>
      cases h
      exact hs
  | cons c cs ih =>
      rw [List.foldlM_cons] at h
      obtain ⟨u, hu, h⟩ := Option.bind_eq_some_iff.1 h
      exact ih (hs.step builds hu) h

theorem State.Holds.finish (hs : s.Holds P) (h : finish s = some v) : P v := by
  unfold Reader.finish at h
  dsimp only at h
  split at h
  · split at h
    · exact hs.result v h
    · cases h
  · obtain ⟨u, hu, h⟩ := Option.bind_eq_some_iff.1 h
    have read := hs.placeWord builds hu
    split at h
    · exact read.result v h
    · cases h
  · cases h

end Builds

end Reader

open Reader (Builds State)

/-- What holds of words and texts, and of containers from their parts, holds of what is read. -/
theorem holds_of_read? {P : Json → Prop} (builds : Builds P) {limit : Nat} {text : String}
    {v : Json} (h : read? limit text = some v) : P v := by
  obtain ⟨s, hs, h⟩ := Option.bind_eq_some_iff.1 h
  have start : State.start.Holds P := ⟨List.forall_mem_nil _, nofun⟩
  exact (start.foldlM builds hs).finish builds h

private theorem builds_distinct : Builds Distinct where
  word h := by
    rcases Reader.wordValue?_cases h with rfl | ⟨b, rfl⟩ | ⟨n, m, -, rfl⟩
    · exact distinct_null
    · exact .scalar rfl rfl
    · exact distinct_number m
  text := distinct_string
  array := distinct_array_iff.2
  object nodup held := distinct_object_iff.2 ⟨nodup, held⟩

/-- No object that is read holds a key twice. -/
theorem distinct_of_read? {limit : Nat} {text : String} {v : Json}
    (h : read? limit text = some v) : v.Distinct :=
  holds_of_read? builds_distinct h

end FormTree.Json
