import FormTree.Proofs.Session.Items

/-!
What a session tells of itself. The rebuild mark and the log of events are about the
operations of the run so far: the mark stands when an item came or went since the
last compilation, and each operation logs what it did, or nothing if it did nothing.
-/

namespace FormTree

namespace RepeatTable

end RepeatTable

namespace Session

inductive Operation where
  | build (input : Option Json)
  | add (k : FieldKey)
  | remove (k : FieldKey) (i : Nat)
  | submit (v : Validator) (raw : Json)
  | checkSchema (v : Validator)

/-- The session after an operation, and what it emits. -/
def perform (s : Session) : Operation → Session × List Event
  | .build input => ((s.build input).session, (s.build input).events)
  | .add k => ((s.addItem k).session, (s.addItem k).events)
  | .remove k i => ((s.removeItem k i).session, (s.removeItem k i).events)
  | .submit v raw => ((s.submit v raw).session, (s.submit v raw).events)
  | .checkSchema v => ((s.check v).session, (s.check v).events)

/-- An operation of a run, on the session that it finds. -/
structure Entry where
  before : Session
  operation : Operation

namespace Entry

def after (e : Entry) : Session := (e.before.perform e.operation).1

def events (e : Entry) : List Event := (e.before.perform e.operation).2

/-- An item is added, or one is to be removed, whether it is there or not. -/
def Edits (e : Entry) : Prop :=
  match e.operation with
  | .add k => (e.before.addItem k).result ≠ none
  | .remove _ _ => True
  | .build _ | .submit _ _ | .checkSchema _ => False

/-- A compilation succeeds. -/
def Compiles (e : Entry) : Prop :=
  match e.operation with
  | .build input => ∃ tree, (e.before.build input).result = .ok tree
  | .submit v raw => ∀ cause, (e.before.submit v raw).result ≠ .error (.compile cause)
  | .add _ | .remove _ _ | .checkSchema _ => False

end Entry

def entries (s : Session) : List Operation → List Entry
  | [] => []
  | op :: ops => ⟨s, op⟩ :: entries (s.perform op).1 ops

/-- Performs operations one after the other, with a log of all events. -/
def run (s : Session) (log : List Event) : List Operation → Session × List Event
  | [] => (s, log)
  | op :: ops => run (s.perform op).1 (log ++ (s.perform op).2) ops

/-- The events after a compilation in a submission: none where the validator fails. -/
def validated : Except Error Submission.Outcome → List Event
  | .ok o => [.submissionValidated o.errorCount o.fieldErrors.length o.genericErrors.length]
  | .error _ => []

section Operations

variable {s : Session} {k : FieldKey} {i : Nat} {v : Validator} {raw : Json} {tree : WidgetTree}

theorem build_inside (s : Session) (input : Option Json) :
    (s.build input).session = { s with table := (s.build input).session.table } := by
  rw [build]
  split
  · rfl
  · rfl

end Operations

namespace Entry

theorem inside (e : Entry) : e.after = { e.before with table := e.after.table } := by
  obtain ⟨s, op⟩ := e
  cases op with
  | build input => exact build_inside s input
  | add k =>
      change (s.addItem k).session = { s with table := (s.addItem k).session.table }
      rw [addItem_session]
  | remove k i => rfl
  | submit v raw =>
      change (s.submit v raw).session = { s with table := (s.submit v raw).session.table }
      rw [RepeatTable.submit_session]
      exact build_inside s (some raw)
  | checkSchema v => rfl

end Entry

end Session
end FormTree
