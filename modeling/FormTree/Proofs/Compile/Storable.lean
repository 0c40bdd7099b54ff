import FormTree.Proofs.Compile.Displays
import FormTree.Proofs.Compile.InTurn
import FormTree.Proofs.Repeat.Reload

/-!
Storing tables and reading them back. The operations on tables and compilations
keep to numbers that fit 64 bits, so every table that they lead to has a stored
form, from which it comes back as it was.
-/

namespace FormTree

namespace Path.Fits

variable {p : Path}

theorem relativeTo (h : p.Fits) (root : Path) : (Path.relativeTo root p).Fits := by
  have below : ((p.below? root).getD p) ⊆ p := by
    cases hbelow : p.below? root with
    | none => exact List.Subset.refl p
    | some rest =>
        rw [← Path.below?_eq_some_iff.1 hbelow]
        exact List.subset_append_right root rest
  exact h.of_subset (List.Subset.trans List.filter_sublist.subset below)

theorem field (h : p.Fits) {k : FieldKey} (field : FieldKey.ofPath? p = some k) :
    k.parents.Fits := by
  obtain ⟨_, -, rfl⟩ := Option.map_eq_some_iff.1 field
  exact h.of_subset (List.Subset.trans (List.dropLast_subset _) List.filter_sublist.subset)

end Path.Fits

namespace Compile

open RepeatTable (Storable)

variable {c : Context}

/-- Whatever the node compiles to, a table that can be stored stays so. -/
private def KeepsStorable (c : Context) (s : Schema) : Prop :=
  ∀ ⦃t t' name p h input tree⦄, Path.Fits p → node c t name p h input s = .ok (tree, t') →
    Storable t → Storable t'

private theorem InTurn.storable {α : Type} {f : Nat → α → RepeatTable → Outcome}
    {rows : List (α × WidgetTree)} {t t' : RepeatTable}
    (each : ∀ n r, rows[n]? = some r → ∀ t u, f n r.1 t = .ok (r.2, u) → Storable t → Storable u)
    (h : InTurn f 0 rows t t') : Storable t → Storable t' := by
  refine h.table (R := fun t u => Storable t → Storable u) (fun _ => id) ?_ ?_
  · exact fun _ _ _ first second ht => second (first ht)
  · intro n r hr
    rw [Nat.zero_add]
    exact each n r hr

private theorem keepsStorable (c : Context) (s : Schema) : KeepsStorable c s := by
  refine Schema.induct ?_ s
  intro s properties items _ t t' name p h input tree fits hok ht
  cases hr : s.role h with
  | single =>
      obtain ⟨rfl, -⟩ := node_single hok hr
      exact ht
  | group ps required =>
      obtain ⟨w, children, -, -, -, hmembers⟩ := node_group hok hr
      obtain ⟨rows, rfl, -, inTurn⟩ := (members_ok_iff 0).1 hmembers
      refine inTurn.storable ?_ ht
      intro n r hr' t u run
      have mem : r.1 ∈ rows.map Prod.fst := List.mem_map_of_mem (List.mem_of_getElem? hr')
      refine properties _ (Schema.properties_of_group hr) r.1 mem (fits.append ?_) run
      intro n hn
      cases List.mem_singleton.1 hn
  | repeated i =>
      obtain ⟨key, w, title, children, field, -, -, -, hitems⟩ := node_repeated hok hr
      obtain ⟨rows, all, -, inTurn⟩ := forItems_ok_iff.1 hitems
      have count := itemCount_le input
      have record := RepeatTable.inOrder_ensured ht.inOrder count key p
      refine inTurn.storable ?_ (ht.ensure ((fits.relativeTo c.root).field field) count fits)
      intro n r hr' t u run
      have used : r.1 ∈ (RepeatTable.ensured _ key (itemCount input) p).indices :=
        all ▸ List.mem_map_of_mem (List.mem_of_getElem? hr')
      refine items i (Schema.items_of_repeated hr) (fits.append ?_) run
      intro m hm
      simp only [List.mem_cons, Segment.index.injEq, reduceCtorEq, List.not_mem_nil, or_false] at hm
      rw [hm]
      exact Nat.le_trans (Nat.le_of_lt (record.below r.1 used)) record.fits

end Compile

namespace RepeatTable

theorem Storable.compile {options : CompileOptions} {root : Path} {d : SchemaDocument} {h : Hint}
    {input : Option Json} {t : RepeatTable} {form : CompiledForm} (ht : t.Storable)
    (mount : root.Fits) (hok : compileForm options root d h input t = .ok form) :
    form.table.Storable := by
  obtain ⟨⟨tree, u⟩, hnode, hok⟩ := bind_eq_ok.1 hok
  cases hok
  exact Compile.keepsStorable _ _ mount hnode ht

/-- What the operations on tables lead to, where all numbers given to them fit 64 bits. -/
inductive Attainable : RepeatTable → Prop
  | empty : Attainable .empty
  | load {v : Json} {t : RepeatTable} (read : ofJson? v = some t) : Attainable t
  | add {t t' : RepeatTable} {k : FieldKey} {i : Nat} (h : Attainable t) (key : k.parents.Fits)
      (added : t.add? k = some (i, t')) : Attainable t'
  | remove {t : RepeatTable} (h : Attainable t) (k : FieldKey) (i : Nat) :
      Attainable (t.remove k i).2
  | set {t : RepeatTable} {k : FieldKey} {s : LiveItems} (h : Attainable t) (key : k.parents.Fits)
      (mark : s.nextIndex ≤ maxIndex) (location : s.location.Fits) : Attainable (t.set k s)
  | ensure {t : RepeatTable} {k : FieldKey} {count : Nat} {location : Path} (h : Attainable t)
      (key : k.parents.Fits) (fits : count ≤ maxIndex) (place : location.Fits) :
      Attainable (t.ensure k count location)
  | compile {options : CompileOptions} {root : Path} {d : SchemaDocument} {hint : Hint}
      {input : Option Json} {t : RepeatTable} {form : CompiledForm} (h : Attainable t)
      (mount : root.Fits) (compiled : compileForm options root d hint input t = .ok form) :
      Attainable form.table
  | clearRebuild {t : RepeatTable} (h : Attainable t) : Attainable t.clearRebuild

theorem Attainable.storable {t : RepeatTable} (h : t.Attainable) : t.Storable := by
  induction h with
  | empty => exact storable_empty
  | load read => exact storable_of_ofJson? read
  | add _ key added ih => exact ih.add key added
  | remove _ k i ih => exact ih.remove k i
  | set _ key mark location ih => exact ih.set key mark location
  | ensure _ key fits place ih => exact ih.ensure key fits place
  | compile _ mount compiled ih => exact ih.compile mount compiled
  | clearRebuild _ ih => exact ih.clearRebuild

/-- A table is read back as it was stored, without the rebuild mark. Whatever else is read, its
records are in order, with the items of the last record that was stored for each key, and it is
read back the same. -/
theorem reload_restores :
    (∀ t, Attainable t → ofJson? t.toJson = some t.clearRebuild) ∧
      ∀ v t, ofJson? v = some t → (∃ records, storedRecords? v = some records ∧
        ∀ k, Option.Rel RestoredFrom (t.find? k) (records.reverse.lookup k)) ∧
          ofJson? t.toJson = some t := by
  refine ⟨fun t h => h.storable.reload, fun v t h => ⟨restored_of_ofJson? h, ?_⟩⟩
  exact (storable_of_ofJson? h).reload.trans (congrArg some (unmarked_of_ofJson? h))

private def cells : FieldKey := ⟨[.property "rows", .index 3], "cells"⟩

private def disorder : LiveItems := ⟨[5, 0, maxIndex, 0], 2, [.wrapper]⟩

/-- Two records of one key. The first has no mark, and the second has one below its indices. -/
private def disordered : Json :=
  .object [("fields", .array
    [.object [("parents", cells.parents.toJson), ("field", .string "cells"),
        ("indices", .array [.ofNat 7])],
      fieldJson (cells, disorder)])]

private theorem indices_restored {s : LiveItems} (h : RestoredFrom s disorder) :
    s.indices = [0, 5] := by
  have same : s.indices.Perm [0, 5] := by
    refine (List.perm_ext_iff_of_nodup (h.ascending.imp Nat.ne_of_lt) (by decide)).2 fun i => ?_
    rw [h.kept]
    simp only [disorder, List.mem_cons, List.not_mem_nil, or_false]
    have : (5 : Nat) ≠ maxIndex := by decide
    have : (0 : Nat) ≠ maxIndex := by decide
    omega
  exact same.eq_of_pairwise (fun _ _ _ _ => by omega) h.ascending (by decide)

theorem reload_restores_disorder : ∃ t, ofJson? disordered = some t ∧ Attainable t ∧
    t.indices cells = [0, 5] ∧ ofJson? t.toJson = some t.clearRebuild ∧
      (∃ records, storedRecords? disordered = some records ∧
        records.reverse.lookup cells = some disorder ∧
          ∀ k, Option.Rel RestoredFrom (t.find? k) (records.reverse.lookup k)) ∧
        ofJson? t.toJson = some t := by
  have reads : (ofJson? disordered).isSome = true := rfl
  obtain ⟨t, read⟩ := Option.isSome_iff_exists.1 reads
  have attainable := Attainable.load read
  obtain ⟨⟨records, stored, restored⟩, again⟩ := reload_restores.2 disordered t read
  have last : records.reverse.lookup cells = some disorder := by
    have known : (storedRecords? disordered).map (fun l => l.reverse.lookup cells) =
        some (some disorder) := rfl
    rw [stored] at known
    exact Option.some.inj known
  have indices : t.indices cells = [0, 5] := by
    have here := restored cells
    rw [last] at here
    generalize known : t.find? cells = found at here
    cases here with
    | some same =>
        rw [indices_of_find? known]
        exact indices_restored same
  exact ⟨t, read, attainable, indices, reload_restores.1 t attainable,
    ⟨records, stored, last, restored⟩, again⟩

end RepeatTable
end FormTree
