import FormTree.Proofs.Compile.Keys
import FormTree.Proofs.Json.Pointer
import FormTree.Proofs.Repeat.Reload

/-!
Paths that are printed and read again. Each segment comes back by itself, except
that a text of digits comes back as the index it denotes and an empty one does not
come back at all. So a path comes back exactly when none of this happens to a
name on it, and the key of a field is read from its path almost exactly then: its
own name may be the numeral of an index.
-/

namespace FormTree

namespace Segment

/-- The text stands for an index where a path is read. -/
def Denotes (text : String) (n : Nat) : Prop :=
  text.toList.all Char.isDigit = true ∧ Nat.ofDigitChars 10 text.toList 0 = n ∧ n ≤ maxIndex

/-- What a segment comes back as. -/
def reread (s : Segment) : Segment := Path.segmentOf (Pointer.escapeChars s.key.toList)

end Segment

namespace Pointer

theorem escapeChars_of_digits {cs : List Char} (digits : cs.all Char.isDigit = true) :
    escapeChars cs = cs := by
  induction cs with
  | nil => rfl
  | cons c cs ih =>
      rw [List.all_cons, Bool.and_eq_true] at digits
      have tilde : c ≠ '~' := fun same => absurd (same ▸ digits.1) (by decide)
      have slash : c ≠ '/' := fun same => absurd (same ▸ digits.1) (by decide)
      rw [escapeChars_char tilde slash, ih digits.2]

theorem all_isDigit_escapeChars (cs : List Char) :
    (escapeChars cs).all Char.isDigit = cs.all Char.isDigit := by
  induction cs with
  | nil => rfl
  | cons c cs ih =>
      by_cases tilde : c = '~'
      · subst tilde
        rfl
      · by_cases slash : c = '/'
        · subst slash
          rfl
        · rw [escapeChars_char tilde slash, List.all_cons, List.all_cons, ih]

theorem escapeChars_eq_nil_iff {cs : List Char} : escapeChars cs = [] ↔ cs = [] := by
  constructor
  · intro h
    rw [← unescapeChars_escapeChars cs, h]
    rfl
  · rintro rfl
    rfl

end Pointer

namespace Segment

variable {s : Segment} {name : String} {n : Nat}

theorem denotes_toString (h : n ≤ maxIndex) : Denotes (toString n) n := by
  refine ⟨List.all_eq_true.2 fun c hc => Pointer.isDigit_of_mem_toString hc, ?_, h⟩
  rw [show (toString n).toList = Nat.toDigits 10 n from Nat.toList_repr]
  exact Nat.ofDigitChars_ten_toDigits

theorem reread_of_denotes (h : Denotes s.key n) : s.reread = .index n := by
  obtain ⟨digits, rfl, le⟩ := h
  rw [reread, Pointer.escapeChars_of_digits digits, Path.segmentOf, if_pos ⟨digits, le⟩]

theorem reread_of_not_denotes (h : ¬∃ n, Denotes s.key n) : s.reread = .property s.key := by
  rw [reread, Path.segmentOf, if_neg, Pointer.unescapeChars_escapeChars, String.ofList_toList]
  rintro ⟨digits, le⟩
  rw [Pointer.all_isDigit_escapeChars] at digits
  rw [Pointer.escapeChars_of_digits digits] at le
  exact h ⟨_, digits, rfl, le⟩

theorem reread_index (h : n ≤ maxIndex) : (index n).reread = .index n :=
  reread_of_denotes (s := .index n) (denotes_toString h)

/-- An index comes back as it is iff it exists. -/
theorem reread_index_iff : (index n).reread = .index n ↔ n ≤ maxIndex := by
  refine ⟨fun same => ?_, reread_index⟩
  by_cases h : ∃ m, Denotes (toString n) m
  · obtain ⟨m, hm⟩ := h
    rw [reread_of_denotes (s := .index n) hm] at same
    exact Segment.index.inj same ▸ hm.2.2
  · rw [reread_of_not_denotes (s := .index n) h] at same
    cases same

theorem reread_not_synthetic (s : Segment) : s.reread.isSynthetic = false := by
  by_cases h : ∃ n, Denotes s.key n
  · rw [reread_of_denotes h.choose_spec]
    rfl
  · rw [reread_of_not_denotes h]
    rfl

/-- A name comes back as it is iff it denotes no index. -/
theorem reread_property_iff : (property name).reread = .property name ↔ ¬∃ n, Denotes name n := by
  constructor
  · rintro same ⟨n, hn⟩
    rw [reread_of_denotes (s := .property name) hn] at same
    cases same
  · exact reread_of_not_denotes (s := .property name)

/-- The text of a name comes back as it is iff the index that it denotes, if any, is written so. -/
theorem key_reread_property_iff :
    (property name).reread.key = name ↔ ∀ n, Denotes name n → toString n = name := by
  constructor
  · intro same n hn
    rwa [reread_of_denotes (s := .property name) hn] at same
  · intro written
    by_cases h : ∃ n, Denotes name n
    · obtain ⟨n, hn⟩ := h
      rw [reread_of_denotes (s := .property name) hn]
      exact written n hn
    · rw [reread_of_not_denotes (s := .property name) h]
      rfl

end Segment

namespace Path

variable {p : Path}

/-- What is printed is read segment by segment, without the ones of empty text. -/
theorem parse_toText (p : Path) :
    parse p.toText = (p.filter fun s => s.key ≠ "").map Segment.reread := by
  cases p with
  | nil => rfl
  | cons s p =>
      have kept : (fun piece : List Char => decide (piece ≠ [])) ∘
          (fun t : String => Pointer.escapeChars t.toList) ∘ Segment.key =
            fun s => decide (s.key ≠ "") := by
        funext s
        simp [Pointer.escapeChars_eq_nil_iff]
      rw [toText, if_neg (by simp), parse, Pointer.pieces_join, List.reverse_nil,
        List.filter_cons_of_neg (by simp), List.map_map, List.filter_map, kept, List.map_map]
      rfl

/-- All names on the path come back: none is empty, none of a parent denotes an index, and one of
the field is written as the index that it denotes. -/
structure Addressable (p : Path) : Prop where
  named : .property "" ∉ p
  parents : ∀ name, .property name ∈ p.dropLast → ¬∃ n, Segment.Denotes name n
  field : ∀ name, p.getLast? = some (.property name) →
    ∀ n, Segment.Denotes name n → toString n = name

private theorem key_eq_empty_iff {s : Segment} (inside : s.isSynthetic = false) :
    s.key = "" ↔ s = .property "" := by
  cases s with
  | property name => exact ⟨fun h => congrArg _ h, fun h => Segment.property.inj h⟩
  | index n =>
      refine iff_of_false (fun h => ?_) nofun
      exact Pointer.toString_toList_ne_nil n (congrArg String.toList h)
  | wrapper | control _ => cases inside

private theorem addressable_concat_iff {front : Path} {s : Segment} :
    Addressable (front ++ [s]) ↔ .property "" ∉ front ++ [s] ∧
      (∀ name, .property name ∈ front → ¬∃ n, Segment.Denotes name n) ∧
        ∀ name, s = .property name → ∀ n, Segment.Denotes name n → toString n = name := by
  constructor
  · rintro ⟨named, parents, field⟩
    rw [List.dropLast_concat] at parents
    rw [List.getLast?_concat] at field
    exact ⟨named, parents, fun name h => field name (congrArg some h)⟩
  · rintro ⟨named, parents, field⟩
    refine ⟨named, ?_, ?_⟩
    · rwa [List.dropLast_concat]
    · rw [List.getLast?_concat]
      exact fun name h => field name (Option.some.inj h)

private theorem withoutSynthetic_reread (p : Path) :
    withoutSynthetic (p.map Segment.reread) = p.map Segment.reread := by
  refine List.filter_eq_self.2 fun s hs => ?_
  obtain ⟨r, -, rfl⟩ := List.mem_map.1 hs
  rw [Segment.reread_not_synthetic]
  rfl

/-- All segments come back as they are iff every index on the path exists, nothing on it stands
outside documents, and no name on it denotes an index. -/
theorem map_reread_eq_self_iff (p : Path) : p.map Segment.reread = p ↔
    p.Fits ∧ (∀ s ∈ p, s.isSynthetic = false) ∧
      ∀ name, .property name ∈ p → ¬∃ n, Segment.Denotes name n := by
  have each : p.map Segment.reread = p ↔ ∀ s ∈ p, s.reread = s := by
    simpa using List.map_inj_left (l := p) (f := Segment.reread) (g := id)
  rw [each]
  constructor
  · intro same
    refine ⟨fun n hn => Segment.reread_index_iff.1 (same _ hn), fun s hs => ?_,
      fun name hname => Segment.reread_property_iff.1 (same _ hname)⟩
    exact same s hs ▸ s.reread_not_synthetic
  · rintro ⟨fits, inside, none⟩ s hs
    cases s with
    | property name => exact Segment.reread_property_iff.2 (none name hs)
    | index n => exact Segment.reread_index (fits n hs)
    | wrapper | control _ => cases inside _ hs

private theorem key_reread_iff {s : Segment} (inside : s.isSynthetic = false)
    (fits : ∀ n, s = .index n → n ≤ maxIndex) : s.reread.key = s.key ↔
      ∀ name, s = .property name → ∀ n, Segment.Denotes name n → toString n = name := by
  cases s with
  | property name =>
      refine Segment.key_reread_property_iff.trans ⟨?_, fun written => written name rfl⟩
      rintro written _ ⟨⟩
      exact written
  | index n =>
      rw [Segment.reread_index (fits n rfl)]
      exact iff_of_true rfl nofun
  | wrapper | control _ => cases inside

/-- A path that its text stands for alone: it has neither wrapper nor control, no name on it is
empty, and none denotes an index. -/
structure Unambiguous (p : Path) : Prop where
  inside : ∀ s ∈ p, s.isSynthetic = false
  named : .property "" ∉ p
  names : ∀ name, .property name ∈ p → ¬∃ n, Segment.Denotes name n

/-- A path is read back from its text iff its indices exist and it is unambiguous. -/
theorem parse_toText_eq_iff (p : Path) : parse p.toText = p ↔ p.Fits ∧ p.Unambiguous := by
  rw [parse_toText]
  constructor
  · intro same
    -- A segment without text is dropped, and nothing else makes up for its place.
    have all : p.filter (fun s => s.key ≠ "") = p := by
      rw [List.filter_eq_self, ← List.length_filter_eq_length_iff, ← List.length_map, same]
    rw [all] at same
    obtain ⟨fits, inside, names⟩ := p.map_reread_eq_self_iff.1 same
    exact ⟨fits, inside, fun unnamed =>
      of_decide_eq_true (List.filter_eq_self.1 all _ unnamed) rfl, names⟩
  · rintro ⟨fits, inside, named, names⟩
    have all : p.filter (fun s => s.key ≠ "") = p := by
      refine List.filter_eq_self.2 fun s hs => decide_eq_true fun empty => ?_
      exact named ((key_eq_empty_iff (inside s hs)).1 empty ▸ hs)
    rw [all]
    exact p.map_reread_eq_self_iff.2 ⟨fits, inside, names⟩

example : parse (toText [.property "a/~1", .index maxIndex, .property "18446744073709551616",
      .property "größe~"]) =
    [.property "a/~1", .index maxIndex, .property "18446744073709551616",
      .property "größe~"] := by decide

/-- The empty name is left out of what is read, so there are too few segments for the key. -/
private theorem ofPath?_parse_ne_of_empty (inside : p.withoutSynthetic = p) {k : FieldKey}
    (key : FieldKey.ofPath? p = some k) (unnamed : .property "" ∈ p) :
    FieldKey.ofPath? (parse p.toText) ≠ some k := by
  intro read
  have same := (FieldKey.names_of_ofPath? key).trans (FieldKey.names_of_ofPath? read).symm
  rw [inside, parse_toText, withoutSynthetic_reread] at same
  have fewer : (p.filter fun s => s.key ≠ "").length < p.length :=
    List.length_filter_lt_length_iff_exists.2 ⟨_, unnamed, by simp [Segment.key]⟩
  have length := congrArg List.length same
  rw [List.length_map, List.length_map, List.length_map] at length
  exact Nat.ne_of_lt fewer length.symm

/-- The key of a field is read from its printed path iff the path is addressable. -/
theorem ofPath?_parse_toText_iff (inside : p.withoutSynthetic = p) (fits : p.Fits) {k : FieldKey}
    (key : FieldKey.ofPath? p = some k) :
    FieldKey.ofPath? (parse p.toText) = some k ↔ p.Addressable := by
  by_cases named : .property "" ∈ p
  · exact iff_of_false (ofPath?_parse_ne_of_empty inside key named) fun h => h.named named
  · obtain ⟨s, hs, rfl⟩ := Option.map_eq_some_iff.1 key
    rw [inside] at hs ⊢
    obtain ⟨front, rfl⟩ := List.getLast?_eq_some_iff.1 hs
    have shown : ∀ r ∈ front ++ [s], r.isSynthetic = false := fun r hr => by
      simpa using List.filter_eq_self.1 inside r hr
    have all : (front ++ [s]).filter (fun s => s.key ≠ "") = front ++ [s] := by
      refine List.filter_eq_self.2 fun r hr => decide_eq_true fun empty => ?_
      exact named ((key_eq_empty_iff (shown r hr)).1 empty ▸ hr)
    have frontFits : Fits front := fits.of_subset (List.subset_append_left _ _)
    rw [addressable_concat_iff, List.dropLast_concat, parse_toText, FieldKey.ofPath?,
      withoutSynthetic_reread, all, List.map_append, List.map_singleton, List.getLast?_concat,
      List.dropLast_concat, Option.map_some, Option.some_inj, FieldKey.mk.injEq,
      map_reread_eq_self_iff, and_iff_right frontFits,
      and_iff_right fun r hr => shown r (List.mem_append_left _ hr),
      key_reread_iff (shown s (by simp)) fun n hn => fits n (by simp [hn]),
      and_iff_right named]

end Path
end FormTree
