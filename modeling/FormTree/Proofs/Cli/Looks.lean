import FormTree.Cli
import FormTree.Proofs.Files

/-!
What the commands read. The configuration and the stored table are looked at without
a change to the machine, and where that fails it is not for anything that is written.
-/

namespace FormTree.Cli

variable {σ α β : Type}

/-- A host whose files have contents, which looking at them does not change, nor an event log that
cannot be opened. What a write that fails leaves in its file is left open. -/
structure Host.Keeps (h : Host (StateM σ))
    (content : σ → String → Except FileError ByteArray) : Prop where
  configPath : ∀ s, (h.configPath s).2 = s
  contains : ∀ path s, (h.contains path s).2 = s
  read : ∀ path s, h.read path s = (content s path, s)
  written : ∀ {path bytes s s'}, h.write path bytes s = (.ok (), s') → content s' path = .ok bytes
  unopened : ∀ {path s s' reason}, h.append path .empty s = (.error reason, s') → s' = s

namespace Machine

variable {f : Files → Except FileError Files} {m m' : Machine}

theorem change_ok (h : change f m = (.ok (), m')) : f m.files = .ok m'.files := by
  rw [change] at h
  cases changed : f m.files with
  | error _ => rw [changed] at h; cases h
  | ok files => rw [changed] at h; cases h; rfl

theorem change_error {reason : FileError} (h : change f m = (.error reason, m')) : m' = m := by
  rw [change] at h
  cases changed : f m.files with
  | error _ => rw [changed] at h; cases h; rfl
  | ok files => rw [changed] at h; cases h

/-- The files are a value, and so a write that fails has opened none of them. -/
theorem unwritten {path : String} {bytes : ByteArray} {reason : FileError}
    (h : host.write path bytes m = (.error reason, m')) : m' = m :=
  change_error (f := fun files => files.write path bytes) h

theorem keeps : host.Keeps fun m path => m.files.read path where
  configPath _ := rfl
  contains _ _ := rfl
  read _ _ := rfl
  written h := Files.read_of_write (change_ok (f := fun files => files.write _ _) h)
  unopened h := change_error (f := fun files => files.append _ _) h

end Machine

/-- What an action comes to, and the state after it. -/
def outcome (x : ExceptT Error (StateM σ) α) (s : σ) : Except Error α × σ := x s

/-- An error that comes from what a command writes: the stored table or the event log. -/
inductive Error.OfWriting : Error → Prop
  | table (path : String) (reason : FileError) : OfWriting (.stateUnwritten path reason)
  | log (path : String) (reason : FileError) : OfWriting (.logUnopened path reason)

/-- An action that only looks: it changes nothing, and it does not fail for what is written. -/
structure Looks (x : ExceptT Error (StateM σ) α) : Prop where
  still : ∀ s, (outcome x s).2 = s
  errors : ∀ {s e s'}, outcome x s = (.error e, s') → ¬e.OfWriting

section Outcome

variable {x : ExceptT Error (StateM σ) α} {f : α → ExceptT Error (StateM σ) β} {s s' t : σ} {a : α}
  {e : Error}

theorem outcome_bind_of_ok (first : outcome x s = (.ok a, t)) :
    outcome (x >>= f) s = outcome (f a) t := by
  change (ExceptT.bindCont f (outcome x s).1 : StateM σ _) (outcome x s).2 = _
  rw [first]
  rfl

theorem outcome_bind_of_error (first : outcome x s = (.error e, t)) :
    outcome (x >>= f) s = (.error e, t) := by
  change (ExceptT.bindCont f (outcome x s).1 : StateM σ _) (outcome x s).2 = _
  rw [first]
  rfl

/-- An action fails in its first part, or in the second after the first. -/
theorem outcome_bind_error (failed : outcome (x >>= f) s = (.error e, s')) :
    outcome x s = (.error e, s') ∨
      ∃ a t, outcome x s = (.ok a, t) ∧ outcome (f a) t = (.error e, s') := by
  rcases first : outcome x s with ⟨_ | a, t⟩
  · rw [outcome_bind_of_error first] at failed
    cases failed
    exact .inl rfl
  · rw [outcome_bind_of_ok first] at failed
    exact .inr ⟨a, t, rfl, failed⟩

theorem outcome_lift_bind {x : StateM σ α} :
    outcome (liftM x >>= f) s = outcome (f (x s).1) (x s).2 := rfl

namespace Looks

theorem same (looks : Looks x) {r : Except Error α} (h : outcome x s = (r, t)) : t = s := by
  have still := looks.still s
  rwa [h] at still

/-- What is looked at gives a result, and no error, without a change. -/
theorem of_eq {g : σ → Except Error α} (h : ∀ s, outcome x s = (g s, s))
    (errors : ∀ {s e}, g s = .error e → ¬e.OfWriting) : Looks x := by
  refine ⟨fun s => by rw [h], fun {s e s'} failed => ?_⟩
  rw [h] at failed
  exact errors (congrArg Prod.fst failed)

theorem pure (a : α) : Looks (pure a : ExceptT Error (StateM σ) α) :=
  of_eq (fun _ => rfl) nofun

theorem throw (other : ¬e.OfWriting) : Looks (throw e : ExceptT Error (StateM σ) α) :=
  of_eq (fun _ => rfl) fun failed => by cases failed; exact other

theorem except {r : Except Error α} (other : ∀ e, r = .error e → ¬e.OfWriting) :
    Looks (liftM r : ExceptT Error (StateM σ) α) :=
  of_eq (fun _ => rfl) fun failed => other _ failed

theorem lift {x : StateM σ α} (still : ∀ s, (x s).2 = s) :
    Looks (liftM x : ExceptT Error (StateM σ) α) :=
  ⟨still, nofun⟩

theorem bind (first : Looks x) (rest : ∀ a, Looks (f a)) : Looks (x >>= f) := by
  refine ⟨fun s => ?_, fun {s e s'} failed => ?_⟩
  · rcases h : outcome x s with ⟨e | a, t⟩
    · rw [outcome_bind_of_error h]
      exact first.same h
    · rw [outcome_bind_of_ok h, (rest a).still, first.same h]
  · rcases outcome_bind_error failed with h | ⟨a, t, -, h⟩
    · exact first.errors h
    · exact (rest a).errors h

/-- Where an action that only looks comes first, one fails without a change, or after it. -/
theorem bind_error (first : Looks x) (failed : outcome (x >>= f) s = (.error e, s')) :
    (¬e.OfWriting ∧ s' = s) ∨ ∃ a, outcome x s = (.ok a, s) ∧ outcome (f a) s = (.error e, s') := by
  rcases outcome_bind_error failed with h | ⟨a, t, h, failed⟩
  · exact .inl ⟨first.errors h, first.same h⟩
  · cases first.same h
    exact .inr ⟨a, h, failed⟩

end Looks

end Outcome

/-! ### The configuration and the stored table -/

theorem not_ofWriting_of_fieldOf {text : String} {e : Error} (failed : fieldOf text = .error e) :
    ¬e.OfWriting := by
  unfold fieldOf at failed
  split at failed <;> cases failed
  nofun

theorem not_ofWriting_of_jsonOf {kind : InputKind} {path : String} {limit : Nat}
    {content : Except FileError ByteArray} {e : Error}
    (failed : jsonOf kind path limit content = .error e) : ¬e.OfWriting := by
  unfold jsonOf at failed
  split at failed
  · cases failed
    nofun
  · split_ifs at failed
    · cases failed
      nofun
    · split at failed <;> cases failed
      nofun

theorem looks_orFail {ε : Type} {f : ε → Error} (other : ∀ cause, ¬(f cause).OfWriting)
    (r : Except ε α) : Looks (orFail f r : ExceptT Error (StateM σ) α) := by
  cases r with
  | error cause => exact .throw (other cause)
  | ok a => exact .pure a

section Host

variable {h : Host (StateM σ)} {content : σ → String → Except FileError ByteArray}
  (keeps : h.Keeps content)
include keeps

theorem looks_read (path : String) :
    Looks (liftM (h.read path) : ExceptT Error (StateM σ) (Except FileError ByteArray)) :=
  .lift fun s => congrArg Prod.snd (keeps.read path s)

theorem looks_loadConfig (path : Option String) (needed : Bool) :
    Looks (loadConfig h path needed) := by
  unfold loadConfig
  refine .bind (.lift keeps.configPath) fun named => ?_
  refine .bind (.lift (keeps.contains _)) fun found => ?_
  split
  · exact .pure _
  · exact .bind (looks_read keeps _) fun _ => looks_orFail nofun _

theorem looks_readJson (kind : InputKind) (limit : Nat) (path : String) :
    Looks (readJson h kind limit path) :=
  .bind (looks_read keeps path) fun _ => .except fun _ => not_ofWriting_of_jsonOf

theorem looks_loadTable (limit : Nat) (path : String) : Looks (loadTable h limit path) := by
  unfold loadTable
  refine .bind (.lift (keeps.contains _)) fun found => ?_
  split
  · exact .pure _
  · refine .bind (looks_readJson keeps ..) fun v => ?_
    split
    · exact .pure _
    · exact .throw nofun

end Host

end FormTree.Cli
