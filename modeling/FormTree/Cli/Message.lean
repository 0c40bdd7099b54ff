import FormTree.Text.Replace

/-!
The texts that the command line shows, under keys. A text has places for
arguments, which are names in braces.
-/

namespace FormTree.Message

def place (name : String) : String := "\x7b" ++ name ++ "\x7d"

def catalog : List (String × String) :=
  [("main.version", "schema-forms \x7bversion\x7d"),
    ("output.stream.stdout", "stdout"),
    ("output.stream.stderr", "stderr"),
    ("output.stream.unknown", "output"),
    ("output.write_failed", "Failed to write to \x7bstream\x7d: \x7berror\x7d"),
    ("output.json_failed", "Failed to render JSON output: \x7berror\x7d"),
    ("input.kind.schema", "schema"),
    ("input.kind.ui", "UI hints"),
    ("input.kind.input", "form input"),
    ("input.kind.data", "submission data"),
    ("input.kind.state", "multivalue state"),
    ("input.read_failed", "Failed to read \x7bkind\x7d at \x7bpath\x7d: \x7berror\x7d"),
    ("input.read_too_large",
      "Refusing to read \x7bkind\x7d at \x7bpath\x7d because it is \x7bsize\x7d bytes " ++
        "(limit \x7blimit\x7d)."),
    ("input.parse_failed", "Failed to parse \x7bkind\x7d JSON at \x7bpath\x7d: \x7berror\x7d"),
    ("input.root_invalid", "Invalid --root value: \x7bvalue\x7d"),
    ("config.load_failed", "Failed to load config: \x7berror\x7d"),
    ("config.validate.ok", "Config valid."),
    ("telemetry.open_failed", "Failed to open event log at \x7bpath\x7d: \x7berror\x7d"),
    ("schema.invalid", "Schema rejected: \x7berror\x7d"),
    ("compile.failed", "Failed to compile form: \x7berror\x7d"),
    ("submit.failed", "Failed to validate submission: \x7berror\x7d"),
    ("submit.invalid", "Submission has \x7bcount\x7d validation error(s)."),
    ("state.serialize_failed", "Failed to serialize multivalue state: \x7berror\x7d"),
    ("state.write_failed",
      "Failed to write multivalue state to \x7bpath\x7d: \x7berror\x7d"),
    ("item.field_invalid", "Field path must end in a property name: \x7bfield\x7d"),
    ("item.add.ok", "Added item \x7bindex\x7d to \x7bfield\x7d."),
    ("item.add.exhausted", "No item index left to add to \x7bfield\x7d."),
    ("item.remove.ok", "Removed item \x7bindex\x7d from \x7bfield\x7d."),
    ("item.remove.missing", "Item \x7bindex\x7d is not live in \x7bfield\x7d; nothing removed.")]

/-- The text under a key; a key without one is its own text. -/
def template (key : String) : String := (catalog.lookup key).getD key

/-- The text under a key with its arguments put in, one after the other, so that
the places in an argument are filled by those after it. -/
def render (key : String) (args : List (String × String)) : String :=
  args.foldl (fun text a => Text.replace text (place a.1) a.2) (template key)

end FormTree.Message
