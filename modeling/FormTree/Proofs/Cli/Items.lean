import FormTree.Proofs.Cli.Looks
import Mathlib.Control.Monad.Basic

/-!
Item commands that fail. Whatever goes wrong before the table is stored leaves
everything as it was, and where the table cannot be stored nothing else is done. The
event log is opened after that, so where it cannot be opened the command fails with
the edited table in its file.
-/

namespace FormTree.Cli

section Item

variable {σ α : Type} {h : Host (StateM σ)}
  {content : σ → String → Except FileError ByteArray} {s s' : σ} {e : Error}

theorem outcome_saveTable (path : String) (t : RepeatTable) (s : σ) :
    outcome (saveTable h path t) s =
      ((h.write path (contentOf t.toJson) s).1.mapError (.stateUnwritten path),
        (h.write path (contentOf t.toJson) s).2) := by
  rw [saveTable, outcome_lift_bind]
  cases (h.write path (contentOf t.toJson) s).1 <;> rfl

theorem outcome_openLog_file (path : String) (s : σ) :
    outcome (openLog h ⟨.file, some path⟩) s =
      ((h.append path .empty s).1.mapError (.logUnopened path), (h.append path .empty s).2) := by
  change outcome (liftM (h.append path .empty) >>= _) s = _
  rw [outcome_lift_bind]
  cases (h.append path .empty s).1 <;> rfl

/-- Nothing fails once the change is stored and recorded. -/
theorem storeChange_error_of_line {c : Config} {path line : String} {t : RepeatTable}
    {event : Event} {code : UInt32}
    (failed : outcome (do
      storeChange h c path t event
      h.out line
      return code) s = (.error e, s')) :
    outcome (storeChange h c path t event) s = (.error e, s') := by
  rcases outcome_bind_error failed with failed | ⟨_, _, -, failed⟩
  · exact failed
  · cases failed

variable (keeps : h.Keeps content)
include keeps

/-- A table is stored in its file, or the file cannot be written. -/
theorem saveTable_cases (path : String) (t : RepeatTable) (s : σ) :
    (∃ reason s', outcome (saveTable h path t) s = (.error (.stateUnwritten path reason), s') ∧
        h.write path (contentOf t.toJson) s = (.error reason, s')) ∨
      ∃ s', outcome (saveTable h path t) s = (.ok (), s') ∧
        content s' path = .ok (contentOf t.toJson) := by
  rw [outcome_saveTable]
  rcases write : h.write path (contentOf t.toJson) s with ⟨reason | _, s'⟩
  · exact .inl ⟨reason, s', rfl, rfl⟩
  · exact .inr ⟨s', rfl, keeps.written write⟩

/-- Only an event log in a file can fail to open. -/
theorem openLog_error {t : TelemetryConfig} (failed : outcome (openLog h t) s = (.error e, s')) :
    s' = s ∧ ∃ path reason, t = ⟨.file, some path⟩ ∧ e = .logUnopened path reason ∧
      h.append path .empty s = (.error reason, s) := by
  obtain ⟨sink, path⟩ := t
  cases sink with
  | none | stderr => cases path <;> cases failed
  | file =>
      cases path with
      | none => cases failed
      | some path =>
          rw [outcome_openLog_file] at failed
          rcases append : h.append path .empty s with ⟨reason | _, s₁⟩
          · rw [append] at failed
            cases failed
            obtain rfl := keeps.unopened append
            exact ⟨rfl, path, reason, rfl, rfl, append⟩
          · rw [append] at failed
            cases failed

/-- A change cannot be stored, or it is stored and the event log cannot be opened. -/
theorem storeChange_error {c : Config} {path : String} {t : RepeatTable} {event : Event}
    (failed : outcome (storeChange h c path t event) s = (.error e, s')) :
    (∃ reason, e = .stateUnwritten path reason ∧
        h.write path (contentOf t.toJson) s = (.error reason, s')) ∨
      ∃ log reason, c.telemetry = ⟨.file, some log⟩ ∧ e = .logUnopened log reason ∧
        h.append log .empty s' = (.error reason, s') ∧
          content s' path = .ok (contentOf t.toJson) := by
  unfold storeChange at failed
  rcases saveTable_cases keeps path t s with ⟨reason, s₁, unsaved, write⟩ | ⟨s₁, saved, stored⟩
  · rw [outcome_bind_of_error unsaved] at failed
    cases failed
    exact .inl ⟨reason, rfl, write⟩
  · -- What fails from here on fails with the table in its file.
    rw [outcome_bind_of_ok saved] at failed
    rcases outcome_bind_error failed with unopened | ⟨_, s₂, -, recorded⟩
    · obtain ⟨rfl, log, reason, telemetry, rfl, append⟩ := openLog_error keeps unopened
      exact .inr ⟨log, reason, telemetry, rfl, append, stored⟩
    · cases recorded

/-! ### Item commands -/

/-- An item command's file of the table, its field and its configuration. -/
def Invocation.itemArguments? : Invocation → Option (String × String × Option String)
  | .addItem state field config | .removeItem state field _ config => some (state, field, config)
  | _ => none

/-- What an item command finds before it changes anything. -/
structure Finds (h : Host (StateM σ)) (s : σ) (state field : String) (config : Option String)
    (c : Config) (key : FieldKey) (t : RepeatTable) : Prop where
  config : outcome (loadConfig h config false) s = (.ok c, s)
  key : fieldOf field = .ok key
  table : outcome (loadTable h c.validation.maxSchemaBytes state) s = (.ok t, s)

/-- What an item command makes of a table. -/
inductive Edits (key : FieldKey) (t : RepeatTable) : Invocation → RepeatTable → Prop
  | add {state field : String} {config : Option String} {i : Nat} {t' : RepeatTable}
      (added : t.add key = (some i, t')) : Edits key t (.addItem state field config) t'
  | remove {state field : String} {config : Option String} {i : Nat} :
      Edits key t (.removeItem state field i config) (t.remove key i).2

/-- An item command fails while it looks, or after what it finds. -/
theorem Finds.of_error {state field : String} {config : Option String}
    {edit : Config → FieldKey → RepeatTable → ExceptT Error (StateM σ) α}
    (failed : outcome (do
      let c ← loadConfig h config false
      let key ← liftM (fieldOf field)
      let t ← loadTable h c.validation.maxSchemaBytes state
      edit c key t) s = (.error e, s')) :
    (¬e.OfWriting ∧ s' = s) ∨ ∃ c key t, Finds h s state field config c key t ∧
      outcome (edit c key t) s = (.error e, s') := by
  rcases (looks_loadConfig keeps ..).bind_error failed with early | ⟨c, config, failed⟩
  · exact .inl early
  rcases (Looks.except fun _ => not_ofWriting_of_fieldOf).bind_error failed with
    early | ⟨key, named, failed⟩
  · exact .inl early
  rcases (looks_loadTable keeps ..).bind_error failed with early | ⟨t, table, failed⟩
  · exact .inl early
  · exact .inr ⟨c, key, t, ⟨config, congrArg Prod.fst named, table⟩, failed⟩

/-- An item command fails without a change, or while the edited table is stored and recorded. -/
theorem item_command_error {command : Invocation} {state field : String} {config : Option String}
    (item : command.itemArguments? = some (state, field, config))
    (failed : outcome (perform h command) s = (.error e, s')) :
    (¬e.OfWriting ∧ s' = s) ∨ ∃ c key t t' event, Finds h s state field config c key t ∧
      Edits key t command t' ∧ outcome (storeChange h c state t' event) s = (.error e, s') := by
  cases command with
  | version | compile _ _ | submit _ _ | checkConfig _ => cases item
  | addItem state field config =>
      cases item
      rcases Finds.of_error keeps failed with early | ⟨c, key, t, finds, failed⟩
      · exact .inl early
      · rcases added : t.add key with ⟨_ | i, t'⟩
        · rw [added] at failed
          cases failed
          exact .inl ⟨nofun, rfl⟩
        · rw [added] at failed
          exact .inr ⟨c, key, t, t', _, finds, .add added, storeChange_error_of_line failed⟩
  | removeItem state field i config =>
      cases item
      rcases Finds.of_error keeps failed with early | ⟨c, key, t, finds, failed⟩
      · exact .inl early
      · exact .inr ⟨c, key, t, _, _, finds, .remove, storeChange_error_of_line failed⟩

/-- A failed item command has changed nothing, except for what it writes. Where the table cannot be
written, that failed write is all that was done. Where the event log cannot be opened, the edited
table is in its file. -/
theorem failed_item_command {command : Invocation} {state field : String} {config : Option String}
    (item : command.itemArguments? = some (state, field, config))
    (failed : outcome (perform h command) s = (.error e, s')) :
    (¬e.OfWriting → s' = s) ∧
    (∀ path reason, e = .stateUnwritten path reason → path = state ∧
      ∃ c key t t', Finds h s state field config c key t ∧ Edits key t command t' ∧
        h.write state (contentOf t'.toJson) s = (.error reason, s')) ∧
    ∀ log reason, e = .logUnopened log reason →
      ∃ c key t t', Finds h s state field config c key t ∧ c.telemetry = ⟨.file, some log⟩ ∧
        h.append log .empty s' = (.error reason, s') ∧ Edits key t command t' ∧
          content s' state = .ok (contentOf t'.toJson) := by
  rcases item_command_error keeps item failed with
    ⟨other, rfl⟩ | ⟨c, key, t, t', event, finds, edits, failed⟩
  · refine ⟨fun _ => rfl, ?_, ?_⟩
    · rintro path reason rfl
      exact (other (.table path reason)).elim
    · rintro log reason rfl
      exact (other (.log log reason)).elim
  · rcases storeChange_error keeps failed with
      ⟨reason, rfl, write⟩ | ⟨log, reason, telemetry, rfl, append, stored⟩
    · refine ⟨fun other => (other (.table state reason)).elim, ?_, nofun⟩
      rintro _ _ ⟨⟩
      exact ⟨rfl, c, key, t, t', finds, edits, write⟩
    · refine ⟨fun other => (other (.log log reason)).elim, nofun, ?_⟩
      rintro _ _ ⟨⟩
      exact ⟨c, key, t, t', finds, telemetry, append, edits, stored⟩

end Item

/-! ### An event log in a directory that is not there -/

def addTag : Invocation := .addItem "state.json" "/tags" (some "c.toml")

def withoutLogDirectory : Machine where
  files := ⟨[
    (["c.toml"], "[telemetry]\nsink = \"file\"\npath = \"logs/events.jsonl\"\n".toUTF8),
    (["state.json"],
      ("\x7b\"fields\":[\x7b\"parents\":[],\"field\":\"tags\",\"indices\":[0]," ++
        "\"next_index\":1,\"array_parents\":[]\x7d]\x7d").toUTF8)]⟩

theorem failure_of_addTag :
    (outcome (perform Machine.host addTag) withoutLogDirectory).1 =
      .error (.logUnopened "logs/events.jsonl" .notFound) := by
  decide +kernel

def addToDirectory : Invocation := .addItem "tables/" "/tags" none

theorem failure_of_addToDirectory :
    (outcome (perform Machine.host addToDirectory) withoutLogDirectory).1 =
      .error (.stateUnwritten "tables/" .isDirectory) := by
  decide +kernel

/-- A table cannot be written where its path asks for a directory. That opens no file, and so
nothing is changed. -/
theorem failed_item_command_without_log_directory :
    (∃ after, outcome (perform Machine.host addTag) withoutLogDirectory =
        (.error (.logUnopened "logs/events.jsonl" .notFound), after) ∧
      ∃ c key t t', Finds Machine.host withoutLogDirectory "state.json" "/tags" (some "c.toml")
          c key t ∧ c.telemetry = ⟨.file, some "logs/events.jsonl"⟩ ∧
        Machine.host.append "logs/events.jsonl" .empty after = (.error .notFound, after) ∧
          Edits key t addTag t' ∧ after.files.read "state.json" = .ok (contentOf t'.toJson)) ∧
    outcome (perform Machine.host addToDirectory) withoutLogDirectory =
      (.error (.stateUnwritten "tables/" .isDirectory), withoutLogDirectory) := by
  constructor
  · have failure := failure_of_addTag
    rcases failed : outcome (perform Machine.host addTag) withoutLogDirectory with ⟨r, after⟩
    rw [failed] at failure
    cases failure
    exact ⟨after, rfl, (failed_item_command Machine.keeps rfl failed).2.2 _ _ rfl⟩
  · have failure := failure_of_addToDirectory
    rcases failed : outcome (perform Machine.host addToDirectory) withoutLogDirectory with
      ⟨r, after⟩
    rw [failed] at failure
    cases failure
    obtain ⟨-, unwritten, -⟩ := failed_item_command Machine.keeps rfl failed
    obtain ⟨-, _, _, _, _, -, -, write⟩ := unwritten _ _ rfl
    rw [Machine.unwritten write]

/-- The command fails, and the stored table is not what it was all the same. -/
theorem table_changed_by_failed_command :
    let after := run Machine.host
      ["item", "add", "--state", "state.json", "--field", "/tags", "--config", "c.toml"]
      withoutLogDirectory
    after.1 = 1 ∧
      after.2.err = "Failed to open event log at logs/events.jsonl: " ++
        "No such file or directory (os error 2)\n" ∧
      after.2.files.read "state.json" ≠ withoutLogDirectory.files.read "state.json" := by
  decide +kernel

end FormTree.Cli
