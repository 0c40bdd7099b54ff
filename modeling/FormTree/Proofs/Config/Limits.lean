import FormTree.Proofs.Compile.ItemTitle
import FormTree.Proofs.Text.Trim

/-!
The limits of a configuration. They are stated on the texts and numbers themselves,
and a configuration is accepted exactly within them.
-/

namespace FormTree
namespace Config

/-- A label has a character that is not white space, and not too many bytes. -/
structure LabelFits (label : String) : Prop where
  shown : ∃ c ∈ label.toList, Text.isBlank c = false
  bytes : label.utf8ByteSize ≤ 256

/-- The path of an event log, without the white space around it, is not empty, and neither it nor
a name in it has too many bytes. -/
structure LogPathFits (path : String) : Prop where
  trimmed : ∃ core, Text.Trims path.toList core ∧ core ≠ [] ∧
    (String.ofList core).utf8ByteSize ≤ 4096 ∧
      ∀ name, Pointer.Piece core name → (String.ofList name).utf8ByteSize ≤ 255

structure WithinLimits (c : Config) : Prop where
  depth : 1 ≤ c.compiler.maxDepth ∧ c.compiler.maxDepth ≤ 128
  addMoreLabel : LabelFits c.compiler.addMoreLabel
  removeLabel : LabelFits c.compiler.removeLabel
  itemTitleFormat : LabelFits c.compiler.itemTitleFormat
  numbered : numberPlace.toList <:+: c.compiler.itemTitleFormat.toList
  documentBytes : 1 ≤ c.validation.maxDocumentBytes ∧
    c.validation.maxDocumentBytes ≤ 16 * 1024 * 1024
  schemaBytes : 1 ≤ c.validation.maxSchemaBytes ∧ c.validation.maxSchemaBytes ≤ 16 * 1024 * 1024
  /-- There is a path of an event log for the sink that is a file and for no other. -/
  logged : c.telemetry.path.isSome = true ↔ c.telemetry.sink = .file
  logPath : ∀ path ∈ c.telemetry.path, LogPathFits path

/-! ### Faults that are not found -/

theorem require_eq_nil_iff {holds : Bool} {fault : Fault} :
    require holds fault = [] ↔ holds = true := by
  cases holds
  · exact iff_of_false nofun nofun
  · exact iff_of_true rfl rfl

theorem isBlank_eq_false_iff {s : String} :
    isBlank s = false ↔ ∃ c ∈ s.toList, Text.isBlank c = false := by
  rw [← Text.trimChars_ne_nil_iff, isBlank, Text.trim, ← Bool.not_eq_true, String.isEmpty_iff,
    String.ofList_eq_empty_iff]

theorem labelFaults_eq_nil_iff {field label : String} :
    labelFaults field label = [] ↔ LabelFits label := by
  rw [labelFaults, List.append_eq_nil_iff, require_eq_nil_iff, require_eq_nil_iff,
    Bool.not_eq_true', isBlank_eq_false_iff, decide_eq_true_eq]
  exact ⟨fun h => ⟨h.1, h.2⟩, fun h => ⟨h.shown, h.bytes⟩⟩

theorem byteFaults_eq_nil_iff {field : String} {n : Nat} :
    byteFaults field n = [] ↔ 1 ≤ n ∧ n ≤ 16 * 1024 * 1024 := by
  rw [byteFaults, require_eq_nil_iff, Bool.and_eq_true, decide_eq_true_eq, decide_eq_true_eq]
  rfl

theorem names_eq (name cs : List Char) :
    Files.names name cs = (Pointer.pieces name cs).map String.ofList := by
  induction cs generalizing name with
  | nil => rfl
  | cons c cs ih =>
      by_cases slash : c = '/'
      · subst slash
        rw [Files.names, Pointer.pieces, ih]
        rfl
      · rw [Files.names, Pointer.pieces, ih]
        · exact slash
        · exact slash

theorem namesFit_iff {path : String} : namesFit path = true ↔
    ∀ name, Pointer.Piece path.toList name → (String.ofList name).utf8ByteSize ≤ 255 := by
  rw [namesFit, names_eq, List.all_eq_true, List.forall_mem_map]
  refine forall_congr' fun name => ?_
  rw [Pointer.mem_pieces_iff, decide_eq_true_iff]
  rfl

theorem logPathFaults_eq_nil_iff {path : String} :
    logPathFaults path = [] ↔ LogPathFits path := by
  have parts : logPathFaults path = [] ↔ Text.trimChars path.toList ≠ [] ∧
      (Text.trim path).utf8ByteSize ≤ 4096 ∧ ∀ name,
        Pointer.Piece (Text.trim path).toList name → (String.ofList name).utf8ByteSize ≤ 255 := by
    rw [logPathFaults, List.append_eq_nil_iff, List.append_eq_nil_iff, require_eq_nil_iff,
      require_eq_nil_iff, require_eq_nil_iff, Bool.not_eq_true', ← Bool.not_eq_true,
      String.isEmpty_iff, namesFit_iff, decide_eq_true_eq, and_assoc]
    exact and_congr_left' (not_congr String.ofList_eq_empty_iff)
  rw [parts]
  constructor
  · rintro ⟨nonempty, bytes, names⟩
    rw [Text.trim, String.toList_ofList] at names
    exact ⟨_, Text.trims_trimChars _, nonempty, bytes, names⟩
  · rintro ⟨core, trims, nonempty, bytes, names⟩
    obtain rfl := trims.trimChars_eq
    rw [Text.trim, String.toList_ofList]
    exact ⟨nonempty, bytes, names⟩

theorem compilerFaults_eq_nil_iff {o : CompileOptions} : compilerFaults o = [] ↔
    (1 ≤ o.maxDepth ∧ o.maxDepth ≤ 128) ∧ LabelFits o.addMoreLabel ∧ LabelFits o.removeLabel ∧
      LabelFits o.itemTitleFormat ∧ numberPlace.toList <:+: o.itemTitleFormat.toList := by
  rw [compilerFaults, List.append_eq_nil_iff, List.append_eq_nil_iff, List.append_eq_nil_iff,
    List.append_eq_nil_iff, require_eq_nil_iff, require_eq_nil_iff, labelFaults_eq_nil_iff,
    labelFaults_eq_nil_iff, labelFaults_eq_nil_iff, Text.contains, Text.occursIn_iff,
    Bool.and_eq_true, decide_eq_true_eq, decide_eq_true_eq, and_assoc, and_assoc, and_assoc]
  rfl

theorem telemetryFaults_eq_nil_iff {t : TelemetryConfig} : telemetryFaults t = [] ↔
    (t.path.isSome = true ↔ t.sink = .file) ∧ ∀ path ∈ t.path, LogPathFits path := by
  obtain ⟨sink, path⟩ := t
  cases path with
  | none => cases sink <;> simp [telemetryFaults]
  | some path => cases sink <;> simp [telemetryFaults, logPathFaults_eq_nil_iff]

theorem check_eq_ok_iff_faults {c : Config} : c.check = .ok () ↔ c.faults = [] := by
  rw [check]
  cases c.faults with
  | nil => exact iff_of_true rfl rfl
  | cons fault rest => exact iff_of_false nofun nofun

/-- A configuration is accepted iff it is within the limits. -/
theorem check_eq_ok_iff (c : Config) : c.check = .ok () ↔ c.WithinLimits := by
  rw [check_eq_ok_iff_faults, faults, List.append_eq_nil_iff, List.append_eq_nil_iff,
    compilerFaults_eq_nil_iff, validationFaults, List.append_eq_nil_iff, byteFaults_eq_nil_iff,
    byteFaults_eq_nil_iff, telemetryFaults_eq_nil_iff]
  constructor
  · rintro ⟨⟨⟨depth, add, remove, format, numbered⟩, document, schema⟩, logged, path⟩
    exact ⟨depth, add, remove, format, numbered, document, schema, logged, path⟩
  · rintro ⟨depth, add, remove, format, numbered, document, schema, logged, path⟩
    exact ⟨⟨⟨depth, add, remove, format, numbered⟩, document, schema⟩, logged, path⟩

/-- A format for titles of items is accepted without a place for the title of the field. -/
theorem untitled_format_accepted :
    check { compiler := { itemTitleFormat := numberPlace } } = .ok () ∧
      ¬CompileOptions.titlePlace.toList <:+: numberPlace.toList := by
  refine ⟨by decide +kernel, ?_⟩
  rw [← Text.occursIn_iff]
  decide

end Config
end FormTree
