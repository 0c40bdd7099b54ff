import FormTree.Proofs.Except
import FormTree.Proofs.Widget.Mapped
import FormTree.Submission

/-!
Where failures end up. Each one becomes a message of the one widget that its pointer
leads to, or else a part of the summary. Merging the messages adds them to their
widgets, in order, and changes nothing else of the tree.
-/

namespace FormTree

namespace Widget

def adding (w : Widget) (messages : List String) : Widget :=
  { w with errors := w.errors ++ messages }

variable (w : Widget) (messages messages' : List String)

@[simp]
theorem path_adding : (w.adding messages).path = w.path := rfl

@[simp]
theorem errors_adding : (w.adding messages).errors = w.errors ++ messages := rfl

@[simp]
theorem adding_nil : w.adding [] = w := by simp [adding]

@[simp]
theorem adding_adding :
    (w.adding messages).adding messages' = w.adding (messages ++ messages') := by
  simp [adding]

end Widget

namespace Routed

/-- Each failure is filed once, in order: as a message of the widget at the path that its pointer
is mapped to, or among the others where there is no such widget. -/
inductive Filed (m : PointerMap) (t : WidgetTree) :
    List Failure → List Attachment → List String → Prop
  | nil : Filed m t [] [] []
  | attached {f : Failure} {p : Path} {n : WidgetTree} {failures : List Failure}
      {attachments : List Attachment} {generic : List String}
      (mapped : m.path? f.pointer = some p) (found : t.find? p = some n)
      (rest : Filed m t failures attachments generic) :
      Filed m t (f :: failures)
        (⟨p, n.widget.title ++ ": " ++ f.described⟩ :: attachments) generic
  | generic {f : Failure} {failures : List Failure} {attachments : List Attachment}
      {generic : List String} (lost : ∀ p, m.path? f.pointer = some p → t.find? p = none)
      (rest : Filed m t failures attachments generic) :
      Filed m t (f :: failures) attachments (f.described :: generic)

/-- The messages attached at a path, in order. -/
def attachedAt (attachments : List Attachment) (p : Path) : List String :=
  (attachments.filter fun a => a.path = p).map Attachment.message

/-- What is added to the messages of the widget at a path: those attached there, and at the root a
summary of the others, if there are any. -/
def messages (r : Routed) (root p : Path) : List String :=
  attachedAt r.attachments p ++
    if p = root ∧ r.generic ≠ [] then [summaryLead ++ ", ".intercalate r.generic] else []

section Route

variable {m : PointerMap} {t : WidgetTree} {root : Path} {failures : List Failure}
  {attachments : List Attachment} {generic : List String}

theorem Filed.length (filed : Filed m t failures attachments generic) :
    failures.length = attachments.length + generic.length := by
  induction filed with
  | nil => rfl
  | attached _ _ _ ih | generic _ _ ih => simp only [List.length_cons]; omega

/-- A message is attached only to widgets of the tree. -/
theorem Filed.exists_node (filed : Filed m t failures attachments generic) {a : Attachment}
    (ha : a ∈ attachments) : ∃ n, t.find? a.path = some n := by
  induction filed with
  | nil => cases ha
  | attached _ found _ ih =>
      rcases List.mem_cons.1 ha with rfl | ha
      · exact ⟨_, found⟩
      · exact ih ha
  | generic _ _ ih => exact ih ha

/-- A failure whose pointer leads to a widget becomes a message of that widget. -/
theorem attachment?_eq_some (placed : t.Placed root) {f : Failure} {p : Path}
    {n : WidgetTree} (mapped : m.path? f.pointer = some p) (found : t.find? p = some n) :
    f.attachment? m t = some ⟨p, n.widget.title ++ ": " ++ f.described⟩ := by
  obtain ⟨-, path⟩ := placed.find?_eq_some_iff.1 found
  have here : n.widget.path = p := path
  rw [Failure.attachment?, Failure.target?, mapped, Option.bind_some, found]
  simp [here]

private theorem attachment?_eq_none {f : Failure}
    (lost : ∀ p, m.path? f.pointer = some p → t.find? p = none) : f.attachment? m t = none := by
  rw [Failure.attachment?, Failure.target?]
  cases mapped : m.path? f.pointer with
  | none => rfl
  | some p => rw [Option.bind_some, lost p mapped]; rfl

theorem filed_ofFailures (placed : t.Placed root) (m : PointerMap) (failures : List Failure) :
    Filed m t failures (ofFailures m t failures).attachments (ofFailures m t failures).generic := by
  induction failures with
  | nil => exact .nil
  | cons f failures ih =>
      by_cases lost : ∀ p, m.path? f.pointer = some p → t.find? p = none
      · have none := attachment?_eq_none lost
        simpa [ofFailures, none] using Filed.generic lost ih
      · push Not at lost
        obtain ⟨p, mapped, found⟩ := lost
        obtain ⟨n, found⟩ := Option.ne_none_iff_exists'.1 found
        have some := attachment?_eq_some placed mapped found
        simpa [ofFailures, some] using Filed.attached mapped found ih

end Route

section Merge

variable {t : WidgetTree} {root : Path}

private theorem addError_eq (placed : t.Placed root) (p : Path) (message : String) :
    t.addError p message =
      t.mapWidgets fun w => w.adding (attachedAt [⟨p, message⟩] w.path) := by
  rw [WidgetTree.addError, placed.update_eq]
  refine WidgetTree.mapWidgets_congr fun n _ => ?_
  by_cases here : n.widget.path = p
  · simp [attachedAt, here, Widget.adding]
  · simp [attachedAt, here, Ne.symm here]

private theorem placed_adding (placed : t.Placed root) (messages : Path → List String) :
    (t.mapWidgets fun w => w.adding (messages w.path)).Placed root :=
  placed.mapWidgets fun _ => rfl

private theorem foldl_addError (placed : t.Placed root) (attachments : List Attachment) :
    attachments.foldl (fun t a => t.addError a.path a.message) t =
      t.mapWidgets fun w => w.adding (attachedAt attachments w.path) := by
  induction attachments generalizing t with
  | nil => simp [attachedAt]
  | cons a attachments ih =>
      rw [List.foldl_cons, addError_eq placed, ih (placed_adding placed _),
        WidgetTree.mapWidgets_mapWidgets]
      refine WidgetTree.mapWidgets_congr fun n _ => ?_
      rw [Widget.adding_adding, Widget.path_adding, attachedAt, attachedAt, ← List.map_append,
        ← List.filter_append]
      rfl

/-- The summary is a message attached at the root after all others. -/
private theorem withError_eq (placed : t.Placed root) (message : String) :
    t.withError message = t.addError root message := by
  have here : Path.below? root root = some [] := by simpa using Path.below?_append root []
  rw [WidgetTree.addError, WidgetTree.update, placed.path, here]
  cases t
  rfl

/-- Merging adds to every widget the messages for its path, and changes nothing else. -/
theorem mergeInto_eq (r : Routed) (placed : t.Placed root) :
    r.mergeInto t = t.mapWidgets fun w => w.adding (r.messages root w.path) := by
  rw [mergeInto, foldl_addError placed, summary?]
  by_cases none : r.generic = []
  · simp [none, messages]
  · have attached := placed_adding placed (attachedAt r.attachments)
    simp only [none, List.isEmpty_iff, if_false]
    rw [withError_eq attached, addError_eq attached, WidgetTree.mapWidgets_mapWidgets]
    refine WidgetTree.mapWidgets_congr fun n _ => ?_
    by_cases here : n.widget.path = root
    · simp [here, none, messages, attachedAt]
    · simp [here, Ne.symm here, messages, attachedAt]

/-- Nothing is added to any widget just when there was nothing to file. -/
private theorem messages_eq_nil_iff {m : PointerMap} {failures : List Failure} {r : Routed}
    (placed : t.Placed root) (filed : Filed m t failures r.attachments r.generic) :
    (∀ n ∈ t.nodes, r.messages root n.path = []) ↔ failures = [] := by
  constructor
  · intro nothing
    have attachments : r.attachments = [] := by
      refine List.eq_nil_iff_forall_not_mem.2 fun a ha => ?_
      obtain ⟨n, found⟩ := filed.exists_node ha
      obtain ⟨inside, path⟩ := placed.find?_eq_some_iff.1 found
      have here := (List.append_eq_nil_iff.1 (nothing n inside)).1
      rw [attachedAt, List.map_eq_nil_iff, List.filter_eq_nil_iff] at here
      exact here a ha (by simp [path])
    have generic : r.generic = [] := by
      have here := (List.append_eq_nil_iff.1 (nothing t (WidgetTree.mem_nodes_self t))).2
      simpa [placed.path] using here
    have length := filed.length
    rw [attachments, generic] at length
    exact List.length_eq_zero_iff.1 length
  · rintro rfl n -
    cases hr : r with
    | mk attachments generic =>
        subst hr
        cases filed
        simp [messages, attachedAt]

end Merge

end Routed

namespace Submission

open Routed (Filed)

/-- Every failure is filed once, under the widget that its pointer leads to or in the summary, and
merging changes nothing but the messages of these widgets. A submission counts all failures, and it
is valid just when its tree has the messages that the tree had before. -/
theorem every_failure_is_filed {root : Path} {t : WidgetTree} (placed : t.Placed root) :
    (∀ (m : PointerMap) (failures : List Failure),
        let r := Routed.ofFailures m t failures
        Filed m t failures r.attachments r.generic) ∧
      (∀ r : Routed, r.mergeInto t = t.mapWidgets fun w => w.adding (r.messages root w.path)) ∧
        ∀ (v : Validator) (d : SchemaDocument) (mount : Path) (raw : Json)
          (failures : List Failure), v.validate (prepare d raw) d.raw = .ok failures →
            ∃ o, process v d mount t raw = .ok o ∧
              Filed (.ofTree t mount) t failures o.fieldErrors o.genericErrors ∧
              o.tree = Routed.mergeInto ⟨o.fieldErrors, o.genericErrors⟩ t ∧
              o.errorCount = failures.length ∧
              failures.length = o.fieldErrors.length + o.genericErrors.length ∧
              (o.isValid = true ↔
                o.tree.nodes.map (fun n => n.widget.errors) =
                  t.nodes.map fun n => n.widget.errors) := by
  refine ⟨Routed.filed_ofFailures placed, fun r => r.mergeInto_eq placed, ?_⟩
  intro v d mount raw failures validated
  have filed := Routed.filed_ofFailures placed (.ofTree t mount) failures
  refine ⟨_, bind_eq_ok.2 ⟨failures, validated, rfl⟩, filed, rfl, rfl, filed.length, ?_⟩
  change (failures.length == 0) = true ↔ _
  rw [beq_iff_eq, List.length_eq_zero_iff, ← Routed.messages_eq_nil_iff placed filed,
    Routed.mergeInto_eq _ placed, WidgetTree.nodes_mapWidgets, List.map_map, List.map_inj_left]
  simp [WidgetTree.path]

section Example

private def titleField : WidgetTree :=
  .node
    { name := "title", path := [.property "form", .property "title"]
      propPath := [.property "title"], kind := .textfield, title := "Title"
      errors := ["Title: was refused"] }
    []

private def formOf (fields : List WidgetTree) : WidgetTree :=
  .node
    { name := "form", path := [.property "form"], propPath := [], kind := .group, title := "Form" }
    fields

private theorem placed_formOf_titleField : (formOf [titleField]).Placed [.property "form"] :=
  @WidgetTree.Placed.node _ _ [(.property "title", titleField)] rfl (List.nodup_singleton _)
    (List.forall_mem_singleton.2 (.leaf rfl))

/-- The map of a form with another field, which is not in the tree. -/
private def olderMap : PointerMap :=
  ((PointerMap.empty.record "" [.property "form"]).record "/title"
    [.property "form", .property "title"]).record "/note" [.property "form", .property "note"]

private def mixedFailures : List Failure :=
  [⟨"too short", "minLength", "/title"⟩, ⟨"bad", "type", "/note"⟩,
    ⟨"surplus", "additionalProperties", "/ghost"⟩, ⟨"odd", "pattern", "#/title"⟩]

private def refusing : Validator := ⟨fun _ => .ok (), fun _ _ => .ok mixedFailures⟩

theorem every_failure_is_filed_in_form :
    let t := formOf [titleField]
    let r := Routed.ofFailures olderMap t mixedFailures
    t.Placed [.property "form"] ∧ Filed olderMap t mixedFailures r.attachments r.generic ∧
      r.attachments.map Attachment.path =
        [[.property "form", .property "title"], [.property "form", .property "title"]] ∧
      r.generic.length = 2 ∧
      r.mergeInto t = t.mapWidgets (fun w => w.adding (r.messages [.property "form"] w.path)) ∧
      ∃ o, process refusing ⟨.null, .implicitNull⟩ [.property "form"] t (.object []) = .ok o ∧
        o.errorCount = 4 ∧ 4 = o.fieldErrors.length + o.genericErrors.length ∧
        (o.isValid = true ↔
          o.tree.nodes.map (fun n => n.widget.errors) = t.nodes.map fun n => n.widget.errors) := by
  intro t r
  have placed : t.Placed [.property "form"] := placed_formOf_titleField
  obtain ⟨routed, merged, processed⟩ := every_failure_is_filed placed
  obtain ⟨o, done, -, -, count, total, valid⟩ := processed refusing ⟨.null, .implicitNull⟩
    [.property "form"] (.object []) mixedFailures rfl
  exact ⟨placed, routed olderMap mixedFailures, rfl, rfl, merged r, o, done, count, total,
    valid⟩

end Example

end Submission
end FormTree
