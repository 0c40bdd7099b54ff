import FormTree.Cli.Arguments
import FormTree.Cli.Host
import FormTree.Cli.Message
import FormTree.Config
import FormTree.Json.Reader
import FormTree.Repeat.Json
import FormTree.Session
import FormTree.Submission.Json
import FormTree.Validation
import FormTree.Widget.Json

/-!
The commands: a form is compiled or submitted, an item is added to or removed
from the stored table of repeated fields, or a configuration is checked. The
table outlives a command in a file of its own.
-/

namespace FormTree.Cli

inductive InputKind where
  | schema
  | hints
  | input
  | data
  | state
deriving DecidableEq, Repr

def InputKind.key : InputKind → String
  | .schema => "input.kind.schema"
  | .hints => "input.kind.ui"
  | .input => "input.kind.input"
  | .data => "input.kind.data"
  | .state => "input.kind.state"

def InputKind.label (k : InputKind) : String := Message.render k.key []

inductive Error where
  | config (cause : ConfigError)
  | unreadable (kind : InputKind) (path : String) (reason : FileError)
  | tooLarge (kind : InputKind) (path : String) (size limit : Nat)
  | malformed (kind : InputKind) (path : String)
  | root (value : String)
  | schema (cause : SchemaError)
  | schemaRejected (cause : ValidatorError)
  | logUnopened (path : String) (reason : FileError)
  | compile (cause : CompileError)
  | submit (cause : Session.Error)
  | stateUnwritten (path : String) (reason : FileError)
  | field (text : String)
  | exhausted (key : FieldKey)
deriving DecidableEq, Repr

def Error.message : Error → String
  | .config cause => Message.render "config.load_failed" [("error", cause.message)]
  | .unreadable kind path reason =>
    Message.render "input.read_failed"
      [("kind", kind.label), ("path", path), ("error", reason.message)]
  | .tooLarge kind path size limit =>
    Message.render "input.read_too_large"
      [("kind", kind.label), ("path", path), ("size", toString size), ("limit", toString limit)]
  | .malformed kind path =>
    Message.render "input.parse_failed"
      [("kind", kind.label), ("path", path), ("error", "not of the expected form")]
  | .root value => Message.render "input.root_invalid" [("value", value)]
  | .schema cause => Message.render "schema.invalid" [("error", cause.message)]
  | .schemaRejected cause => Message.render "schema.invalid" [("error", cause.message)]
  | .logUnopened path reason =>
    Message.render "telemetry.open_failed" [("path", path), ("error", reason.message)]
  | .compile cause => Message.render "compile.failed" [("error", cause.message)]
  | .submit cause => Message.render "submit.failed" [("error", cause.message)]
  | .stateUnwritten path reason =>
    Message.render "state.write_failed" [("path", path), ("error", reason.message)]
  | .field text => Message.render "item.field_invalid" [("field", text)]
  | .exhausted key => Message.render "item.add.exhausted" [("field", key.path.toText)]

def defaultConfigPath : String := "schema-forms.toml"

/-- The containers that may stand inside each other in a file. -/
def maxFileNesting : Nat := 127

def invalidCode : UInt32 := 2

def rootOf (value : Option String) : Except Error Path :=
  match value with
  | none => .ok []
  | some value =>
    let trimmed := Text.trim value
    if trimmed.isEmpty || Text.contains trimmed "//" then .error (.root value)
    else .ok (Path.parse trimmed)

def fieldOf (text : String) : Except Error FieldKey :=
  match FieldKey.ofPath? (Path.parse text) with
  | some key => .ok key
  | none => .error (.field text)

def jsonOf (kind : InputKind) (path : String) (limit : Nat)
    (content : Except FileError ByteArray) : Except Error Json :=
  match content with
  | .error reason => .error (.unreadable kind path reason)
  | .ok content =>
    if limit < content.size then .error (.tooLarge kind path content.size limit)
    else
      match (String.fromUTF8? content).bind (Json.read? maxFileNesting) with
      | some v => .ok v
      | none => .error (.malformed kind path)

def contentOf (v : Json) : ByteArray := (v.pretty ++ "\n").toUTF8

section

variable {m : Type → Type} [Monad m] (h : Host m)

def orFail {ε α : Type} (f : ε → Error) (r : Except ε α) : ExceptT Error m α :=
  ExceptT.mk (pure (r.mapError f))

/-- The configuration at a path, from an option or the environment. Where none
is named, the default file is read, which may have to exist or not. -/
def loadConfig (path : Option String) (needed : Bool) : ExceptT Error m Config := do
  let named := path <|> (← h.configPath)
  if named.isNone && !needed && !(← h.contains defaultConfigPath) then return {}
  let path := named.getD defaultConfigPath
  let content ← h.read path
  orFail .config (Config.ofFile path content)

def readJson (kind : InputKind) (limit : Nat) (path : String) : ExceptT Error m Json := do
  let content ← h.read path
  jsonOf kind path limit content

/-- The stored table; a file that is not there holds an empty one. -/
def loadTable (limit : Nat) (path : String) : ExceptT Error m RepeatTable := do
  if !(← h.contains path) then return .empty
  let v ← readJson h .state limit path
  match RepeatTable.ofJson? v with
  | some t => return t
  | none => throw (.malformed .state path)

def saveTable (path : String) (t : RepeatTable) : ExceptT Error m Unit := do
  match ← h.write path (contentOf t.toJson) with
  | .ok () => return
  | .error reason => throw (.stateUnwritten path reason)

def openLog (t : TelemetryConfig) : ExceptT Error m Unit := do
  match t.sink, t.path with
  | .file, some path =>
    match ← h.append path .empty with
    | .ok () => return
    | .error reason => throw (.logUnopened path reason)
  | _, _ => return

def record (t : TelemetryConfig) (e : Event) : m Unit := do
  let line := e.line (← h.now)
  match t.sink, t.path with
  | .stderr, _ => h.err line
  | .file, some path => do
    let _ ← h.append path line.toUTF8
  | _, _ => return

def recordAll (t : TelemetryConfig) : List Event → m Unit
  | [] => pure ()
  | e :: rest => do
    record h t e
    recordAll t rest

def openSession (c : Config) (form : FormArguments) : ExceptT Error m Session := do
  let limit := c.validation.maxSchemaBytes
  let raw ← readJson h .schema limit form.schema
  let document ← orFail .schema (SchemaDocument.ofJson c.compiler.maxDepth raw)
  let hint ←
    match form.hints with
    | some path => Hint.ofJson <$> readJson h .hints limit path
    | none => pure .empty
  let table ←
    match form.state with
    | some path => loadTable h limit path
    | none => pure .empty
  let root ← rootOf form.root
  openLog h c.telemetry
  let session : Session := { document, hint, options := c.compiler, root, table }
  orFail .schemaRejected (session.check c.validation.draft.validator).result
  return session

def saveSession (form : FormArguments) (s : Session) : ExceptT Error m Unit :=
  match form.state with
  | some path => saveTable h path s.table
  | none => pure ()

def compile (form : FormArguments) (input : Option String) : ExceptT Error m UInt32 := do
  let c ← loadConfig h form.config false
  let session ← openSession h c form
  let input ← input.mapM (readJson h .input c.validation.maxDocumentBytes)
  let step := session.build input
  (recordAll h c.telemetry step.events : m Unit)
  let tree ← orFail .compile step.result
  h.out (tree.toJson.pretty ++ "\n")
  saveSession h form step.session
  return 0

def submit (form : FormArguments) (data : String) : ExceptT Error m UInt32 := do
  let c ← loadConfig h form.config false
  let session ← openSession h c form
  let raw ← readJson h .data c.validation.maxDocumentBytes data
  let step := session.submit c.validation.draft.validator raw
  (recordAll h c.telemetry step.events : m Unit)
  let outcome ← orFail .submit step.result
  h.out (outcome.toJson.pretty ++ "\n")
  saveSession h form step.session
  if outcome.isValid then return 0
  h.err (Message.render "submit.invalid" [("count", toString outcome.errorCount)] ++ "\n")
  return invalidCode

def storeChange (c : Config) (path : String) (t : RepeatTable) (e : Event) :
    ExceptT Error m Unit := do
  saveTable h path t
  openLog h c.telemetry
  (record h c.telemetry e : m Unit)

def itemLine (key : String) (i : Nat) (field : FieldKey) : String :=
  Message.render key [("index", toString i), ("field", field.path.toText)] ++ "\n"

def addItem (state field : String) (config : Option String) : ExceptT Error m UInt32 := do
  let c ← loadConfig h config false
  let key ← fieldOf field
  let table ← loadTable h c.validation.maxSchemaBytes state
  match table.add key with
  | (none, _) => throw (.exhausted key)
  | (some i, table) => do
    storeChange h c state table (.itemChanged key .add i true (table.indices key))
    h.out (itemLine "item.add.ok" i key)
    return 0

def removeItem (state field : String) (i : Nat) (config : Option String) :
    ExceptT Error m UInt32 := do
  let c ← loadConfig h config false
  let key ← fieldOf field
  let table ← loadTable h c.validation.maxSchemaBytes state
  let (removed, table) := table.remove key i
  storeChange h c state table (.itemChanged key .remove i removed (table.indices key))
  h.out (itemLine (if removed then "item.remove.ok" else "item.remove.missing") i key)
  return 0

def checkConfig (config : Option String) : ExceptT Error m UInt32 := do
  let _ ← loadConfig h config true
  h.out (Message.render "config.validate.ok" [] ++ "\n")
  return 0

def versionText : String := "0.1.0"

def perform : Invocation → ExceptT Error m UInt32
  | .version => do
    h.out (Message.render "main.version" [("version", versionText)] ++ "\n")
    return 0
  | .compile form input => compile h form input
  | .submit form data => submit h form data
  | .addItem state field config => addItem h state field config
  | .removeItem state field i config => removeItem h state field i config
  | .checkConfig config => checkConfig h config

def usage : String :=
  "Usage: schema-forms [--version] <COMMAND>\n" ++
    "\n" ++
    "Commands:\n" ++
    "  compile --schema PATH [--ui PATH] [--state PATH] [--root SEGMENTS] [--config PATH]\n" ++
    "          [--input PATH]\n" ++
    "  submit --schema PATH --data PATH [--ui PATH] [--state PATH] [--root SEGMENTS]\n" ++
    "         [--config PATH]\n" ++
    "  item add --state PATH --field PATH [--config PATH]\n" ++
    "  item remove --state PATH --field PATH --delta N [--config PATH]\n" ++
    "  config validate [--config PATH]\n"

def run (args : List String) : m UInt32 := do
  match Arguments.read args with
  | .error .help => do
    h.out usage
    return 0
  | .error .wrong => do
    h.err ("error: the arguments were not understood\n\n" ++ usage)
    return 2
  | .ok invocation =>
    match ← (perform h invocation).run with
    | .ok code => return code
    | .error e => do
      h.err (e.message ++ "\n")
      return 1

end

end FormTree.Cli
