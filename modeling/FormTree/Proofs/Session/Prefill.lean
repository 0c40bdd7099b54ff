import FormTree.Proofs.Submission.Full
import FormTree.Proofs.Submission.Shown
import FormTree.Proofs.Widget.Errors
import FormTree.Session

/-!
Where messages land. A message about a value is attached to the widget at the
place of the value, and items are placed in the order of the submission. The
widget itself shows what was entered under its own index. So a message stands
beside the value it is about as long as the two were entered alike.
-/

namespace FormTree

open Submission (Entered Full Origin Outcome Shaped Submits cast clean_scalar entered? prepare
  submittedAt? submittedAt?_append)
open WidgetTree (At Layout)

namespace Session

variable {s : Session} {v : Validator} {raw x : Json} {tree n : WidgetTree} {outcome : Outcome}

theorem build_ok {input : Option Json} (h : (s.build input).result = .ok tree) :
    ∃ form, compileForm s.options s.root s.document s.hint input s.table = .ok form ∧
      form.tree = tree := by
  rw [build] at h
  split at h
  · cases h
  · next form hform =>
    cases h
    exact ⟨form, hform, rfl⟩

theorem submit_ok_iff (built : (s.build (some raw)).result = .ok tree) :
    (s.submit v raw).result = .ok outcome ↔
      Submission.process v s.document s.root tree raw = .ok outcome := by
  rw [submit]
  dsimp only
  rw [built]
  dsimp only
  cases Submission.process v s.document s.root tree raw <;> simp

private theorem process_ok {d : SchemaDocument} {root : Path}
    (h : Submission.process v d root tree raw = .ok outcome) :
    ∃ failures, v.validate (prepare d raw) d.raw = .ok failures ∧
      outcome.document = prepare d raw ∧
        let routed := Routed.ofFailures (.ofTree tree root) tree failures
        outcome.tree = routed.mergeInto tree ∧ outcome.fieldErrors = routed.attachments := by
  obtain ⟨failures, validated, h⟩ := bind_eq_ok.1 h
  cases h
  exact ⟨failures, validated, rfl, rfl, rfl⟩

/-- A submission attaches a failure, at a value of the document, to a widget in which a value is
entered. -/
structure Attaches (s : Session) (v : Validator) (raw : Json) (tree : WidgetTree)
    (outcome : Outcome) (f : Failure) (n : WidgetTree) (x : Json) : Prop where
  built : (s.build (some raw)).result = .ok tree
  submitted : (s.submit v raw).result = .ok outcome
  reported : ∃ failures, v.validate outcome.document s.document.raw = .ok failures ∧ f ∈ failures
  attached : ∃ a, f.attachment? (.ofTree tree s.root) tree = some a ∧ n.path = a.path
  held : n ∈ outcome.tree.nodes
  input : n.widget.kind.isInput = true
  found : Pointer.lookup? f.pointer outcome.document = some x

/-- The widget of a message is the field that the pointer of the failure leads to. -/
private theorem attached_at {root : Path} (layout : Layout root tree) {f : Failure}
    {a : Attachment} (attached : f.attachment? (.ofTree tree root) tree = some a)
    {tokens : List String} (read : Pointer.tokens? f.pointer = some tokens) :
    ∃ rel m, At tree rel tokens m ∧ m.path = a.path := by
  obtain ⟨w, hw, rfl⟩ := Option.map_eq_some_iff.1 attached
  obtain ⟨m, hm, rfl⟩ := Option.map_eq_some_iff.1 hw
  obtain ⟨p, hp, hfind⟩ := Option.bind_eq_some_iff.1 hm
  obtain ⟨rel, m', hat, rfl⟩ := PointerMap.exists_at_of_path? layout hp read
  rw [layout.placed.find? hat.mem_nodes] at hfind
  cases hfind
  exact ⟨rel, m, hat, rfl⟩

private theorem built_widget {m : WidgetTree} {root : Path} (layout : Layout root tree)
    {r : Routed} (hn : n ∈ (r.mergeInto tree).nodes) (hm : m ∈ tree.nodes)
    (path : n.path = m.path) : ∃ errors, n.widget = { m.widget with errors } := by
  obtain ⟨m', hm', errors, same⟩ := Routed.exists_of_mem_mergeInto hn
  have path' : n.path = m'.path := by
    rw [WidgetTree.path, same]
    rfl
  obtain rfl := layout.placed.eq_of_path hm' hm (path'.symm.trans path)
  exact ⟨errors, same⟩

/-- The widget of a message shows the value that the message is about just when what was entered
for the widget, or else the default of its node, is cast like the value that stands at the place
of the widget in the submission. So it does where the items are submitted in their order. -/
theorem shows_value_of_message_iff {f : Failure} (accepted : s.document.Accepted)
    (plain : s.document.root.Everywhere Schema.PlainNames) (reachable : s.table.Reachable)
    (shaped : Shaped s.document.root s.hint raw)
    (attaches : s.Attaches v raw tree outcome f n x) :
    (∃ a ∈ outcome.fieldErrors, a.path = n.path) ∧
      ∃ node tokens keys y, s.document.nodeAt? n.widget.propPath = some node ∧
        Pointer.tokens? f.pointer = some tokens ∧
        Origin s.document.root s.hint raw tokens keys node y ∧ entered? keys raw = some y ∧
        x = cast node y ∧
        ((∃ w, n.widget.defaultValue = some w ∧ cast node w = x) ↔
          (submittedAt? s.root n.path raw <|> node.default).map (cast node) =
            some (cast node y)) ∧
        (Full tree raw → ∃ w, n.widget.defaultValue = some w ∧ cast node w = x) := by
  obtain ⟨built, submitted, reported, ⟨a, attached, path⟩, held, input, found⟩ := attaches
  obtain ⟨failures, validated, failed⟩ := reported
  obtain ⟨failures', hvalidate, hdocument, htree, herrors⟩ :=
    process_ok ((submit_ok_iff built).1 submitted)
  obtain ⟨form, hform, rfl⟩ := build_ok built
  rw [hdocument, hvalidate] at validated
  cases validated
  rw [hdocument, Pointer.lookup?] at found
  obtain ⟨tokens, read, found⟩ := Option.bind_eq_some_iff.1 found
  have layout := layout_of_compileForm accepted reachable hform
  obtain ⟨-, displays⟩ := compileForm_ok hform
  obtain ⟨rel, m, hat, hpath⟩ := attached_at layout attached read
  obtain ⟨errors, same⟩ := built_widget layout (htree ▸ held) hat.mem_nodes (path.trans hpath.symm)
  rw [same] at input ⊢
  obtain ⟨node, h', route, single, nodeAt, shown⟩ :=
    Submission.shown_after_submission accepted reachable hform shaped hat input
  rw [hpath, ← path] at shown
  obtain ⟨keys, y, origin, shapedValue, rfl⟩ := shaped.origin route accepted.sound plain found
  rw [clean_scalar (shapedValue.scalar single)]
  have value := origin.entered shaped
  have shows : (∃ w, m.widget.defaultValue = some w ∧ cast node w = cast node y) ↔
      (submittedAt? s.root n.path raw <|> node.default).map (cast node) = some (cast node y) := by
    rw [shown, Option.map_eq_some_iff]
  refine ⟨⟨a, ?_, path.symm⟩, node, tokens, keys, y, nodeAt, read, origin, value, rfl, shows, ?_⟩
  · rw [herrors]
    exact List.mem_filterMap.2 ⟨f, failed, attached⟩
  · intro full
    rw [full.keys_eq displays accepted.sound hat origin] at value
    refine shows.2 ?_
    rw [path, ← hpath, (hat.layout layout).path, submittedAt?_append, value]
    rfl

section Tags

private def tagsSchema : Json :=
  .object
    [("type", .string "object"),
      ("properties", .object
        [("tags", .object
          [("type", .string "array"),
            ("items", .object [("type", .string "string"), ("minLength", .number (.int 2))])])])]

private def tagSchema : Schema := ⟨[.string], none, none, none, none, .scalar⟩

private def tagsSession : Session where
  document :=
    let tags : Schema := ⟨[.array], none, none, none, none, .array tagSchema⟩
    ⟨tagsSchema, [.object], none, none, none, none, .object [("tags", tags)] [] none⟩
  hint := {}
  options := {}
  root := []
  table := .empty

private def tagEntry (i : Nat) (tag : String) : Entered :=
  let v : Json := .string tag
  ⟨i, v, .object [(Segment.wrapperKey, v), (Control.remove.key, .string "Remove item")]⟩

/-- The second tag comes before the first. -/
private def tagEntries : List Entered := [tagEntry 1 "b", tagEntry 0 "aa"]

private def tagsMembers : List (String × Json) :=
  tagEntries.map fun e => (toString e.index, e.wrapper)

private def tagsRaw : Json := .object [("tags", .object tagsMembers)]

private def tagFailure : Failure := ⟨"\"b\" is shorter than 2 characters", "minLength", "/tags/0"⟩

private def tagsValidator : Validator := ⟨fun _ => .ok (), fun _ _ => .ok [tagFailure]⟩

private theorem tags_shaped : Shaped tagsSession.document.root tagsSession.hint tagsRaw := by
  have submits : Submits tagsMembers tagEntries := by
    refine ⟨by decide, by decide, ?_⟩
    intro e he
    simp only [tagEntries, List.mem_cons, List.not_mem_nil, or_false] at he
    obtain rfl | rfl := he <;> exact .first _
  refine .group (s := tagsSession.document.root) rfl (List.nodup_singleton _) ?_ ?_
  · exact List.forall_mem_singleton.2 (List.mem_singleton.2 rfl)
  · refine List.forall_mem_singleton.2 fun s hs => ?_
    cases hs
    refine .repeated rfl submits ?_
    intro e he
    simp only [tagEntries, List.mem_cons, List.not_mem_nil, or_false] at he
    obtain rfl | rfl := he <;> exact .value rfl rfl

private def tagPath : Path := [.property "tags", .index 0, .wrapper]

private def tagsPairs : List (String × Path) :=
  [("", []), ("/tags", [.property "tags"]), ("/tags/0", [.property "tags", .index 0]),
    ("/tags/0", tagPath), ("/tags/1", [.property "tags", .index 1]),
    ("/tags/1", [.property "tags", .index 1, .wrapper])]

private theorem tags_built : (tagsSession.build (some tagsRaw)).result.map
    (fun tree => (PointerMap.pairs [] tree, tree.path, tree.nodes[3]?.map fun n =>
      (n.path, n.widget.kind, n.widget.propPath, n.widget.defaultValue))) =
      .ok (tagsPairs, [], some (tagPath, .textfield, [.property "tags", .index 0],
        some (.string "aa"))) :=
  rfl

private theorem tags_mapped : (tagsPairs.foldl (fun m e => m.record e.1 e.2) PointerMap.empty).path?
    "/tags/0" = some tagPath :=
  rfl

private theorem tags_prepared : prepare tagsSession.document tagsRaw =
    .object [("tags", .array [.string "b", .string "aa"])] :=
  rfl

private theorem tags_accepted : tagsSession.document.Accepted := by
  have distinct : tagsSchema.Distinct := by simp [tagsSchema]
  exact ⟨32, tagsSchema, distinct, rfl⟩

private theorem tags_plain : tagsSession.document.root.Everywhere Schema.PlainNames :=
  .of_object (List.forall_mem_singleton.2 (by decide)) rfl
    (List.forall_mem_singleton.2 (.of_array nofun rfl (.of_scalar nofun rfl)))

/-- The message about the second tag comes to the widget of the first. -/
private theorem tags_attached : ∃ tree outcome n,
    tagsSession.Attaches tagsValidator tagsRaw tree outcome tagFailure n (.string "b") ∧
      n.widget.propPath = [.property "tags", .index 0] ∧
      n.widget.defaultValue = some (.string "aa") := by
  have facts := tags_built
  cases built : (tagsSession.build (some tagsRaw)).result with
  | error e => rw [built] at facts; cases facts
  | ok tree =>
      rw [built] at facts
      simp only [Except.map, Except.ok.injEq, Prod.mk.injEq] at facts
      obtain ⟨pairs, path, node⟩ := facts
      obtain ⟨m, hm, hnode⟩ := Option.map_eq_some_iff.1 node
      simp only [Prod.mk.injEq] at hnode
      obtain ⟨hpath, hkind, hprop, hdefault⟩ := hnode
      have inside : m ∈ tree.nodes := List.mem_of_getElem? hm
      have found : tree.find? tagPath = some m := by
        obtain ⟨form, hform, rfl⟩ := build_ok built
        rw [← hpath]
        exact (layout_of_compileForm tags_accepted .empty hform).placed.find? inside
      have map : PointerMap.ofTree tree [] =
          tagsPairs.foldl (fun m e => m.record e.1 e.2) .empty := by
        rw [PointerMap.ofTree, path, ← pairs]
        rfl
      have attached : tagFailure.attachment? (.ofTree tree []) tree =
          some ⟨m.path, m.widget.title ++ ": " ++ tagFailure.described⟩ := by
        rw [Failure.attachment?, Failure.target?, map, tagFailure, tags_mapped, Option.bind_some,
          found]
        rfl
      let routed := Routed.ofFailures (.ofTree tree []) tree [tagFailure]
      obtain ⟨n, hn, errors, same⟩ := Routed.exists_mem_mergeInto routed inside
      have submitted := (submit_ok_iff (v := tagsValidator) built).2 rfl
      have reported (document : Json) : ∃ failures,
          tagsValidator.validate document tagsSession.document.raw = .ok failures ∧
            tagFailure ∈ failures := ⟨_, rfl, List.mem_cons_self⟩
      refine ⟨tree, _, n, ⟨built, submitted, reported _, ⟨_, attached, ?_⟩, hn, ?_, ?_⟩, ?_, ?_⟩
      · rw [WidgetTree.path, same]
        rfl
      · rw [same, hkind]
        rfl
      · change Pointer.lookup? tagFailure.pointer (prepare tagsSession.document tagsRaw) = _
        rw [tags_prepared]
        rfl
      · rw [same, ← hprop]
      · rw [same, ← hdefault]

/-- The widget with the message about the second tag shows the first. -/
theorem message_stands_beside_other_value : ∃ tree outcome n node,
    tagsSession.document.Accepted ∧
      tagsSession.document.root.Everywhere Schema.PlainNames ∧ tagsSession.table.Reachable ∧
      Shaped tagsSession.document.root tagsSession.hint tagsRaw ∧
      tagsSession.Attaches tagsValidator tagsRaw tree outcome tagFailure n (.string "b") ∧
      tagsSession.document.nodeAt? n.widget.propPath = some node ∧
      ¬∃ w, n.widget.defaultValue = some w ∧ cast node w = .string "b" := by
  obtain ⟨tree, outcome, n, attaches, propPath, shown⟩ := tags_attached
  refine ⟨tree, outcome, n, tagSchema, tags_accepted, tags_plain, .empty, tags_shaped, attaches,
    ?_, ?_⟩
  · rw [propPath]
    rfl
  · rintro ⟨w, hw, hcast⟩
    cases hw.symm.trans shown
    have kept : cast tagSchema (.string "aa") = .string "aa" := rfl
    rw [kept] at hcast
    exact absurd hcast (by decide)

theorem shows_value_of_message_iff_in_tags : ∃ tree outcome n,
    tagsSession.document.Accepted ∧
      tagsSession.document.root.Everywhere Schema.PlainNames ∧ tagsSession.table.Reachable ∧
      Shaped tagsSession.document.root tagsSession.hint tagsRaw ∧
      tagsSession.Attaches tagsValidator tagsRaw tree outcome tagFailure n (.string "b") ∧
      (∃ a ∈ outcome.fieldErrors, a.path = n.path) ∧
      ∃ node tokens keys y, tagsSession.document.nodeAt? n.widget.propPath = some node ∧
        Pointer.tokens? tagFailure.pointer = some tokens ∧
        Origin tagsSession.document.root tagsSession.hint tagsRaw tokens keys node y ∧
        entered? keys tagsRaw = some y ∧ .string "b" = cast node y ∧
        ((∃ w, n.widget.defaultValue = some w ∧ cast node w = .string "b") ↔
          (submittedAt? tagsSession.root n.path tagsRaw <|> node.default).map (cast node) =
            some (cast node y)) ∧
        (Full tree tagsRaw →
          ∃ w, n.widget.defaultValue = some w ∧ cast node w = .string "b") := by
  obtain ⟨tree, outcome, n, attaches, -, -⟩ := tags_attached
  exact ⟨tree, outcome, n, tags_accepted, tags_plain, .empty, tags_shaped, attaches,
    shows_value_of_message_iff tags_accepted tags_plain .empty tags_shaped attaches⟩

end Tags

end Session
end FormTree
