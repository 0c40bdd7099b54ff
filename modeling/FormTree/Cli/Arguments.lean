import FormTree.Repeat.Key

/-!
The arguments of the command line: commands with named options, each given once
at most, and the flags for help and version, which may stand anywhere.
-/

namespace FormTree.Cli

structure FormArguments where
  schema : String
  hints : Option String
  state : Option String
  root : Option String
  config : Option String
deriving DecidableEq, Repr

inductive Invocation where
  | version
  | compile (form : FormArguments) (input : Option String)
  | submit (form : FormArguments) (data : String)
  | addItem (state field : String) (config : Option String)
  | removeItem (state field : String) (index : Nat) (config : Option String)
  | checkConfig (config : Option String)
deriving DecidableEq, Repr

inductive Refusal where
  | help
  | wrong
deriving DecidableEq, Repr

namespace Arguments

/-- The form of an option's value. A path has at least one character. -/
inductive ValueForm where
  | path
  | text
  | index
deriving DecidableEq, Repr

structure OptionSpec where
  name : String
  form : ValueForm
  required : Bool := false

def ValueForm.admits (value : String) : ValueForm → Bool
  | .path => !value.isEmpty
  | .text => true
  | .index => (FieldKey.indexOfText? value).isSome

inductive Word where
  /-- A name after two dashes, perhaps with a value after an equals sign. -/
  | long (name : String) (value : Option String)
  | short (letter : Char)
  | dashes
  | plain

def Word.of (arg : String) : Word :=
  match arg.toList with
  | ['-', '-'] => .dashes
  | '-' :: '-' :: rest =>
    let name := rest.takeWhile (· ≠ '=')
    match rest.dropWhile (· ≠ '=') with
    | [] => .long (String.ofList name) none
    | _ :: value => .long (String.ofList name) (some (String.ofList value))
  | '-' :: letter :: _ => .short letter
  | _ => .plain

/-- Only a plain word can be the value of the option before it. -/
def isValue (arg : String) : Bool :=
  match Word.of arg with
  | .plain => true
  | _ => false

structure Given where
  values : List (String × String) := []
  version : Bool := false

def Given.take (specs : List OptionSpec) (g : Given) (name value : String) :
    Except Refusal Given :=
  match specs.find? fun s => s.name == name with
  | none => .error .wrong
  | some spec =>
    if (g.values.lookup name).isSome || !spec.form.admits value then .error .wrong
    else .ok { g with values := (name, value) :: g.values }

/-- Ends the reading of options; none that is required may be missing. -/
def Given.complete (specs : List OptionSpec) (g : Given) : Except Refusal Given :=
  if specs.all fun s => !s.required || (g.values.lookup s.name).isSome then .ok g
  else .error .wrong

def options (specs : List OptionSpec) (g : Given) : List String → Except Refusal Given
  | [] => g.complete specs
  | arg :: rest =>
    match Word.of arg with
    | .short 'h' | .long "help" none => .error .help
    | .long "version" none =>
      if g.version then .error .wrong else options specs { g with version := true } rest
    | .long name (some value) => do options specs (← g.take specs name value) rest
    | .long name none =>
      match rest with
      | [] => .error .wrong
      | value :: rest =>
        if isValue value then do options specs (← g.take specs name value) rest
        else .error .wrong
    | .dashes => if rest.isEmpty then g.complete specs else .error .wrong
    | .short _ | .plain => .error .wrong

abbrev Reader := List String → Except Refusal Invocation

def command (specs : List OptionSpec) (f : (String → Option String) → Option Invocation) : Reader :=
  fun args => do
    let g ← options specs {} args
    match f fun name => g.values.lookup name with
    | some i => .ok (if g.version then .version else i)
    | none => .error .wrong

/-- A group of commands; `alone` is what the group means without any of them,
after the flag for the version or not. -/
def group (commands : List (String × Reader)) (alone : Bool → Except Refusal Invocation)
    (version : Bool) : Reader
  | [] => alone version
  | arg :: rest =>
    match Word.of arg with
    | .short 'h' | .long "help" none => .error .help
    | .long "version" none =>
      if version then .error .wrong else group commands alone true rest
    | .plain =>
      match commands.lookup arg with
      | some reader => (reader rest).map fun i => if version then .version else i
      | none => .error .wrong
    | .dashes => if rest.isEmpty then alone version else .error .wrong
    | _ => .error .wrong

def subcommands (commands : List (String × Reader)) : Reader :=
  group commands (fun _ => .error .wrong) false

def formOptions : List OptionSpec :=
  [⟨"schema", .path, true⟩, ⟨"ui", .path, false⟩, ⟨"state", .path, false⟩,
    ⟨"root", .text, false⟩, ⟨"config", .path, false⟩]

def formOf (value : String → Option String) : Option FormArguments :=
  (value "schema").map fun schema =>
    { schema, hints := value "ui", state := value "state", root := value "root",
      config := value "config" }

def compile : Reader :=
  command (formOptions ++ [⟨"input", .path, false⟩]) fun value => do
    return .compile (← formOf value) (value "input")

def submit : Reader :=
  command (formOptions ++ [⟨"data", .path, true⟩]) fun value => do
    return .submit (← formOf value) (← value "data")

def itemOptions : List OptionSpec :=
  [⟨"state", .path, true⟩, ⟨"field", .text, true⟩, ⟨"config", .path, false⟩]

def addItem : Reader :=
  command itemOptions fun value => do
    return .addItem (← value "state") (← value "field") (value "config")

def removeItem : Reader :=
  command (itemOptions ++ [⟨"delta", .index, true⟩]) fun value => do
    let i ← (value "delta").bind FieldKey.indexOfText?
    return .removeItem (← value "state") (← value "field") i (value "config")

def checkConfig : Reader :=
  command [⟨"config", .path, false⟩] fun value => some (.checkConfig (value "config"))

def commands : List (String × Reader) :=
  [("compile", compile),
    ("item", subcommands [("add", addItem), ("remove", removeItem)]),
    ("submit", submit),
    ("config", subcommands [("validate", checkConfig)])]

/-- Reads all arguments. Without a command they ask for the version or for
help. -/
def read : List String → Except Refusal Invocation :=
  group commands (fun version => if version then .ok .version else .error .help) false

end Arguments
end FormTree.Cli
