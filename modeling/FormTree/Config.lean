import FormTree.Compile
import FormTree.Files
import FormTree.Json.Record
import FormTree.Path.Json
import FormTree.Toml
import FormTree.Validation.Draft

/-!
The configuration of the command line: options of compilation, limits and
draft of validation, and where events go. It is read from TOML, and accepted
when it stays within its limits.
-/

namespace FormTree

structure ValidationConfig where
  draft : Draft := .draft4
  maxDocumentBytes : Nat := 1024 * 1024
  maxSchemaBytes : Nat := 1024 * 1024
deriving DecidableEq, Repr

inductive Sink where
  | none
  | stderr
  | file
deriving DecidableEq, Repr

namespace Sink

def name : Sink → String
  | .none => "none"
  | .stderr => "stderr"
  | .file => "file"

def all : List Sink := [.none, .stderr, .file]

def ofName? (name : String) : Option Sink := all.find? fun s => s.name == name

end Sink

structure TelemetryConfig where
  sink : Sink := .none
  /-- The file of the events, for that sink only. -/
  path : Option String := none
deriving DecidableEq, Repr

structure Config where
  compiler : CompileOptions := {}
  validation : ValidationConfig := {}
  telemetry : TelemetryConfig := {}
deriving DecidableEq, Repr

namespace Config

/-! ### Limits -/

inductive Fault where
  | depth
  | blank (field : String)
  | longLabel (field : String)
  | noNumber
  | byteLimit (field : String)
  | logPathNeeded
  | logPathUnused
  | longPath (subject : String)
  | longLogName
  | longFileName
  | largeFile
  | notText
deriving DecidableEq, Repr

def maxDepthLimit : Nat := 128

def maxLabelBytes : Nat := 256

def maxInputBytes : Nat := 16 * 1024 * 1024

def maxFileBytes : Nat := 1024 * 1024

def maxPathBytes : Nat := 4096

def maxNameBytes : Nat := 255

def numberPlace : String := "\x7bnumber\x7d"

def logPathField : String := "telemetry.path"

def Fault.message : Fault → String
  | .depth => "compiler.max_depth must be between 1 and " ++ toString maxDepthLimit
  | .blank field => field ++ " must be non-empty"
  | .longLabel field => field ++ " exceeds " ++ toString maxLabelBytes ++ " bytes"
  | .noNumber => "compiler.item_title_format must contain " ++ numberPlace
  | .byteLimit field => field ++ " must be between 1 and " ++ toString maxInputBytes
  | .logPathNeeded => logPathField ++ " is required for the file sink"
  | .logPathUnused => logPathField ++ " is only valid with the file sink"
  | .longPath subject => subject ++ " exceeds max length"
  | .longLogName => logPathField ++ " path component too long"
  | .longFileName => "config path component too long"
  | .largeFile => "config file exceeds size limit"
  | .notText => "config file must be utf-8"

def require (holds : Bool) (fault : Fault) : List Fault := if holds then [] else [fault]

def isBlank (s : String) : Bool := (Text.trim s).isEmpty

def namesFit (path : String) : Bool :=
  (Files.names [] path.toList).all fun name => name.utf8ByteSize ≤ maxNameBytes

def labelFaults (field label : String) : List Fault :=
  require (!isBlank label) (.blank field) ++
    require (label.utf8ByteSize ≤ maxLabelBytes) (.longLabel field)

def compilerFaults (o : CompileOptions) : List Fault :=
  require (1 ≤ o.maxDepth && o.maxDepth ≤ maxDepthLimit) .depth ++
    labelFaults "compiler.add_more_label" o.addMoreLabel ++
    labelFaults "compiler.remove_label" o.removeLabel ++
    labelFaults "compiler.item_title_format" o.itemTitleFormat ++
    require (Text.contains o.itemTitleFormat numberPlace) .noNumber

def byteFaults (field : String) (n : Nat) : List Fault :=
  require (1 ≤ n && n ≤ maxInputBytes) (.byteLimit field)

def validationFaults (v : ValidationConfig) : List Fault :=
  byteFaults "validation.max_document_bytes" v.maxDocumentBytes ++
    byteFaults "validation.max_schema_bytes" v.maxSchemaBytes

/-- The faults of the path of the event log, apart from the white space around
it. -/
def logPathFaults (path : String) : List Fault :=
  let path := Text.trim path
  require (!path.isEmpty) (.blank logPathField) ++
    require (path.utf8ByteSize ≤ maxPathBytes) (.longPath logPathField) ++
    require (namesFit path) .longLogName

def telemetryFaults (t : TelemetryConfig) : List Fault :=
  match t.sink, t.path with
  | .file, none => [.logPathNeeded]
  | .file, some path => logPathFaults path
  | _, some _ => [.logPathUnused]
  | _, none => []

/-- All faults, in the order in which they are looked for. -/
def faults (c : Config) : List Fault :=
  compilerFaults c.compiler ++ validationFaults c.validation ++ telemetryFaults c.telemetry

end Config

inductive ConfigError where
  | unreadable (reason : FileError)
  | malformed
  | invalid (fault : Config.Fault)
deriving DecidableEq, Repr

def ConfigError.message : ConfigError → String
  | .unreadable reason => "config io error: " ++ reason.message
  | .malformed => "config parse error: not a configuration in TOML"
  | .invalid fault => "invalid config: " ++ fault.message

namespace Config

def reject (faults : List Fault) : Except ConfigError Unit :=
  match faults with
  | [] => .ok ()
  | fault :: _ => .error (.invalid fault)

def check (c : Config) : Except ConfigError Unit := reject c.faults

/-! ### Reading -/

def compilerOfJson? (f : Format) (v : Json) : Option CompileOptions := do
  let usual : CompileOptions := {}
  match ← f.record? ["max_depth", "add_more_label", "remove_label", "item_title_format"] v with
  | [maxDepth, addMoreLabel, removeLabel, itemTitleFormat] =>
    return {
      maxDepth := ← Json.optional Json.index? usual.maxDepth maxDepth
      addMoreLabel := ← Json.optional Json.string? usual.addMoreLabel addMoreLabel
      removeLabel := ← Json.optional Json.string? usual.removeLabel removeLabel
      itemTitleFormat := ← Json.optional Json.string? usual.itemTitleFormat itemTitleFormat }
  | _ => none

def validationOfJson? (f : Format) (v : Json) : Option ValidationConfig := do
  let usual : ValidationConfig := {}
  match ← f.record? ["draft", "max_document_bytes", "max_schema_bytes"] v with
  | [draft, maxDocumentBytes, maxSchemaBytes] =>
    return {
      draft := ← Json.optional (fun v => (f.choice? v).bind Draft.ofName?) usual.draft draft
      maxDocumentBytes := ← Json.optional Json.index? usual.maxDocumentBytes maxDocumentBytes
      maxSchemaBytes := ← Json.optional Json.index? usual.maxSchemaBytes maxSchemaBytes }
  | _ => none

def telemetryOfJson? (f : Format) (v : Json) : Option TelemetryConfig := do
  let usual : TelemetryConfig := {}
  match ← f.record? ["sink", "path"] v with
  | [sink, path] =>
    return {
      sink := ← Json.optional (fun v => (f.choice? v).bind Sink.ofName?) usual.sink sink
      path := ← Json.nullable Json.string? path }
  | _ => none

/-- The configuration that a value holds. Sections and fields may be left
out. -/
def ofJson? (f : Format) (v : Json) : Option Config := do
  match ← f.record? ["compiler", "validation", "telemetry"] v with
  | [compiler, validation, telemetry] =>
    return {
      compiler := ← Json.optional (compilerOfJson? f) {} compiler
      validation := ← Json.optional (validationOfJson? f) {} validation
      telemetry := ← Json.optional (telemetryOfJson? f) {} telemetry }
  | _ => none

def ofJson (f : Format) (v : Json) : Except ConfigError Config := do
  match ofJson? f v with
  | none => throw .malformed
  | some c => do
    c.check
    return c

def ofToml (text : String) : Except ConfigError Config :=
  match Toml.read? text with
  | none => .error .malformed
  | some v => ofJson .toml v

def checkPath (path : String) : Except ConfigError Unit :=
  reject
    (require (path.utf8ByteSize ≤ maxPathBytes) (.longPath "config path") ++
      require (namesFit path) .longFileName)

def ofBytes (content : ByteArray) : Except ConfigError Config := do
  reject (require (content.size ≤ maxFileBytes) .largeFile)
  match String.fromUTF8? content with
  | none => throw (.invalid .notText)
  | some text => ofToml text

def ofFile (path : String) (content : Except FileError ByteArray) : Except ConfigError Config := do
  checkPath path
  match content with
  | .error reason => throw (.unreadable reason)
  | .ok content => ofBytes content

end Config
end FormTree
