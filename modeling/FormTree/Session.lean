import FormTree.Compile
import FormTree.Event
import FormTree.Submission

/-!
A session with one form: the schema, hints and options, the mount, and the
table of repeated fields that outlives each build. Every step gives a result,
the session after it and the events it emits.
-/

namespace FormTree

structure Session where
  document : SchemaDocument
  hint : Hint
  options : CompileOptions
  root : Path
  table : RepeatTable

namespace Session

inductive Error where
  | compile (cause : CompileError)
  | validator (cause : ValidatorError)
deriving DecidableEq, Repr

def Error.message : Error → String
  | .compile cause => cause.message
  | .validator cause => cause.message

/-- What a step leads to. -/
structure Step (α : Type) where
  result : α
  session : Session
  events : List Event

/-- Builds the tree from the current input and clears the rebuild mark. A build
that fails changes nothing. -/
def build (s : Session) (input : Option Json) : Step (Except CompileError WidgetTree) :=
  match compileForm s.options s.root s.document s.hint input s.table with
  | .error e => ⟨.error e, s, []⟩
  | .ok form =>
    let table := form.table.clearRebuild
    ⟨.ok form.tree, { s with table }, [.formCompiled form.tree.fieldCount table.size]⟩

/-- Adds an item to a repeated field; `none` where no index is left. -/
def addItem (s : Session) (k : FieldKey) : Step (Option Nat) :=
  match s.table.add k with
  | (none, table) => ⟨none, { s with table }, []⟩
  | (some i, table) =>
    ⟨some i, { s with table }, [.itemChanged k .add i true (table.indices k)]⟩

/-- Removes an item of a repeated field and says whether it was there. -/
def removeItem (s : Session) (k : FieldKey) (i : Nat) : Step Bool :=
  let (removed, table) := s.table.remove k i
  ⟨removed, { s with table }, [.itemChanged k .remove i removed (table.indices k)]⟩

/-- Builds the tree from a raw submission and processes it. -/
def submit (s : Session) (v : Validator) (raw : Json) :
    Step (Except Error Submission.Outcome) :=
  let built := s.build (some raw)
  match built.result with
  | .error e => ⟨.error (.compile e), built.session, built.events⟩
  | .ok tree =>
    match Submission.process v s.document s.root tree raw with
    | .error e => ⟨.error (.validator e), built.session, built.events⟩
    | .ok outcome =>
      let validated : Event :=
        .submissionValidated outcome.errorCount outcome.fieldErrors.length
          outcome.genericErrors.length
      ⟨.ok outcome, built.session, built.events ++ [validated]⟩

def checkSchema (s : Session) (v : Validator) : Except ValidatorError Unit :=
  v.checkSchema s.document.raw

/-- The check of the schema as a step, which only reads the session. -/
def check (s : Session) (v : Validator) : Step (Except ValidatorError Unit) :=
  ⟨s.checkSchema v, s, []⟩

def needsRebuild (s : Session) : Bool := s.table.rebuild

end Session
end FormTree
