import FormTree.Proofs.Compile.Document
import FormTree.Proofs.Submission.Filed
import FormTree.Proofs.Validation.Violation

/-!
Required properties that are missing from a document. The violation names the object and the
property, and the failure that it is reported as is routed to the widget that the group holds
for the property.
-/

namespace FormTree

open Pointer (LastPiece)
open WidgetTree (At)

/-- A group holds a widget for every property that its node declares. -/
theorem Compile.Displays.exists_child {c : Context} {T : RepeatTable} {name : String} {p : Path}
    {h : Hint} {input : Option Json} {s : Schema} {g : WidgetTree}
    (hd : Displays c T name p h input s g) (kind : g.widget.kind = .group) :
    ∃ properties, s.properties? = some properties ∧ ∀ key ∈ properties.map Prod.fst,
      ∃ child ∈ g.children, child.path = g.path ++ [.property key] := by
  cases hd with
  | @single _ _ _ _ _ w _ _ shows =>
      rw [WidgetTree.widget] at kind
      cases shows with
      | constant markup _ => cases kind.symm.trans markup
      | entered input _ => rw [kind] at input; cases input
  | @group _ _ _ _ _ w properties _ rows role stands _ all below =>
      refine ⟨properties, Schema.properties_of_group role, fun key hkey => ?_⟩
      rw [← all, List.map_map] at hkey
      obtain ⟨r, hr, rfl⟩ := List.mem_map.1 hkey
      refine ⟨r.2, List.mem_map_of_mem hr, (below r hr).stands.path.trans ?_⟩
      rw [WidgetTree.path, WidgetTree.widget, stands.path]
      rfl
  | repeated _ _ kind' _ _ _ _ _ => cases kind.symm.trans kind'

/-- The message that a failure becomes at a widget. -/
def Failure.attachTo (f : Failure) (n : WidgetTree) : Attachment :=
  ⟨n.path, n.widget.title ++ ": " ++ f.described⟩

/-- A failure that has a widget becomes one message there, and no other failure is affected. -/
theorem Routed.ofFailures_append {m : PointerMap} {t : WidgetTree} {f : Failure} {a : Attachment}
    (attached : f.attachment? m t = some a) (before after : List Failure) :
    ofFailures m t (before ++ f :: after) =
      ⟨(ofFailures m t before).attachments ++ a :: (ofFailures m t after).attachments,
        (ofFailures m t before).generic ++ (ofFailures m t after).generic⟩ := by
  simp [ofFailures, attached]

/-- A failure is routed to one node of a tree, wherever it stands among the others. -/
structure Failure.RoutedTo (f : Failure) (m : PointerMap) (t n : WidgetTree) : Prop where
  pointer : m.pointer? n.path = some f.pointer
  alone : ∀ n' ∈ t.nodes, n'.path = n.path → n' = n
  attached : ∀ before after, Routed.ofFailures m t (before ++ f :: after) =
    ⟨(Routed.ofFailures m t before).attachments ++
        f.attachTo n :: (Routed.ofFailures m t after).attachments,
      (Routed.ofFailures m t before).generic ++ (Routed.ofFailures m t after).generic⟩

section Form

variable {options : CompileOptions} {root : Path} {d : SchemaDocument} {h : Hint}
  {input : Option Json} {t : RepeatTable} {form : CompiledForm}

/-- A missing property of the object of a group is reported on the widget that the group holds for
the property. Every violation names the last piece of its place in the schema. -/
theorem missing_property_reported (accepted : d.Accepted) (reachable : t.Reachable)
    (hok : compileForm options root d h input t = .ok form) :
    let m := PointerMap.ofTree form.tree root
    (∀ g ∈ form.tree.nodes, g.widget.kind = .group →
      ∃ q s properties, m.pointer? g.path = some q ∧ d.nodeAt? g.widget.propPath = some s ∧
        s.properties? = some properties ∧ ∀ name ∈ properties.map Prod.fst, ∀ v : Violation,
          v.missing = some name → v.instancePath = q →
            ∃ child ∈ g.children, child.path = g.path ++ [.property name] ∧
              v.toFailure.RoutedTo m form.tree child) ∧
      ∀ v : Violation,
        (∃ piece, LastPiece v.schemaPath.toList piece ∧
          v.toFailure.constraint = String.ofList piece) ∨
        (∀ c ∈ v.schemaPath.toList, c = '/') ∧ v.toFailure.constraint = "schema" := by
  have layout := layout_of_compileForm accepted reachable hok
  obtain ⟨-, displays⟩ := compileForm_ok hok
  refine ⟨fun g hg kind => ?_, fun v => v.constraint_cases⟩
  have field : g.widget.kind.isStructural = false := by rw [kind]; rfl
  obtain ⟨rel, tokens, hat, pointer⟩ := PointerMap.pointer?_ofTree layout hg field
  obtain ⟨_, _, _, s, route, -, shown⟩ := displays.field hat accepted.sound
  obtain ⟨properties, declared, holds⟩ := shown.exists_child kind
  refine ⟨_, s, properties, pointer, displays.nodeAt?_propPath hat accepted.sound route, declared,
    fun name hname v missing place => ?_⟩
  obtain ⟨child, held, path⟩ := holds name hname
  have below := hat.concat kind held path
  have mapped : (PointerMap.ofTree form.tree root).pointer? child.path =
      some v.toFailure.pointer := by
    rw [PointerMap.pointer?_of_at layout below, ← Violation.pointer_of_missing missing place]
    rfl
  refine ⟨child, held, path, mapped, fun n hn same => ?_, ?_⟩
  · exact layout.placed.eq_of_path hn below.mem_nodes same
  · exact Routed.ofFailures_append (Routed.attachment?_eq_some layout.placed
      (PointerMap.path?_of_pointer? layout mapped) (layout.placed.find? below.mem_nodes))

end Form

/-- Entries in a list, each with a name that needs escapes. -/
private def entryList : SchemaDocument :=
  let text : Schema := ⟨[.string], none, none, none, none, .scalar⟩
  let entry : Schema :=
    ⟨[.object], none, none, none, none,
      .object [("a/b~", text)] (Schema.sortNames ["a/b~"]) none⟩
  let entries : Schema := ⟨[.array], none, none, none, none, .array entry⟩
  { raw := .object
      [("type", .string "object"),
        ("properties", .object
          [("rows", .object
            [("type", .string "array"),
              ("items", .object
                [("type", .string "object"), ("required", .array [.string "a/b~"]),
                  ("properties", .object [("a/b~", .object [("type", .string "string")])])])])])]
    root := ⟨[.object], none, none, none, none, .object [("rows", entries)] [] none⟩ }

private def entryPath : Path := [.property "form", .property "rows", .index 2, .wrapper]

private theorem compile_entryList :
    (compileForm {} [.property "form"] entryList {} none .twoRows).map (fun form =>
      (form.tree.nodes.find? fun n => n.path = entryPath).map fun n =>
        (n.widget.kind, (PointerMap.ofTree form.tree [.property "form"]).pointer? n.path,
          ((entryList.nodeAt? n.widget.propPath).bind Schema.properties?).map (·.map Prod.fst))) =
      .ok (some (.group, some "/rows/1", some ["a/b~"])) := by decide +kernel

private def missingEntry : Violation where
  message := "\"a/b~\" is a required property"
  schemaPath := "/properties/rows/items/required"
  instancePath := "/rows/1"
  missing := some "a/b~"

/-- The second of two entries, under an index of its own, lacks its only property. -/
theorem missing_entry_reported : ∃ form g child,
    entryList.Accepted ∧ RepeatTable.twoRows.Reachable ∧
      compileForm {} [.property "form"] entryList {} none .twoRows = .ok form ∧
        g ∈ form.tree.nodes ∧ g.widget.kind = .group ∧ child ∈ g.children ∧
          child.path = entryPath ++ [.property "a/b~"] ∧
            missingEntry.toFailure.pointer = "/rows/1/a~1b~0" ∧
              missingEntry.toFailure.constraint = "required" ∧
                missingEntry.toFailure.RoutedTo
                  (PointerMap.ofTree form.tree [.property "form"]) form.tree child := by
  have accepted : entryList.Accepted := ⟨32, entryList.raw, by simp [entryList], rfl⟩
  have reachable := RepeatTable.twoRows_reachable
  have found := compile_entryList
  cases hok : compileForm {} [.property "form"] entryList {} none .twoRows with
  | error e => rw [hok] at found; cases found
  | ok form =>
      rw [hok] at found
      obtain ⟨g, hg, shown⟩ := Option.map_eq_some_iff.1 (Except.ok.inj found)
      obtain ⟨kind, shown⟩ := Prod.mk.inj shown
      obtain ⟨pointer, declared⟩ := Prod.mk.inj shown
      have inside := List.mem_of_find?_eq_some hg
      have path : g.path = entryPath := by simpa using List.find?_some hg
      obtain ⟨q, s, properties, mapped, node, known, reported⟩ :=
        (missing_property_reported accepted reachable hok).1 g inside kind
      cases pointer.symm.trans mapped
      rw [node, Option.bind_some, known, Option.map_some, Option.some_inj] at declared
      obtain ⟨child, held, below, routed⟩ :=
        reported "a/b~" (declared ▸ List.mem_singleton_self _) missingEntry rfl rfl
      exact ⟨form, g, child, accepted, reachable, rfl, inside, kind, held, path ▸ below, rfl, rfl,
        routed⟩

end FormTree
