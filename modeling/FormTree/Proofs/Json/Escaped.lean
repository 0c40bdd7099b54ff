import FormTree.Proofs.Json.Pointer
import FormTree.Proofs.Text.Replace

/-!
Escaped reference tokens. Escaping and reading back are two replacements each, one after
the other, and they undo each other between the texts and those texts without a slash in
which each tilde is followed by a zero or a one.
-/

namespace FormTree.Pointer

open Text (Apart replaceChars)

variable {cs rest : List Char} {c : Char}

/-- Each tilde begins an escape. -/
def TildesEscape (cs : List Char) : Prop :=
  ∀ before after, cs = before ++ '~' :: after → after.head? = some '0' ∨ after.head? = some '1'

/-- A text without a slash, in which each tilde begins an escape. -/
structure Escaped (text : String) : Prop where
  noSlash : '/' ∉ text.toList
  tildes : TildesEscape text.toList

/-! ### Escaping, character by character -/

theorem TildesEscape.cons (h : TildesEscape rest)
    (here : c = '~' → rest.head? = some '0' ∨ rest.head? = some '1') : TildesEscape (c :: rest) := by
  intro before after whole
  cases before with
  | nil =>
      obtain ⟨rfl, rfl⟩ := List.cons.inj whole
      exact here rfl
  | cons b before => exact h before after (List.cons.inj whole).2

theorem TildesEscape.of_append (front : List Char) (h : TildesEscape (front ++ rest)) :
    TildesEscape rest := by
  rintro before after rfl
  exact h (front ++ before) after (List.append_assoc ..).symm

theorem tildesEscape_escapeChars (cs : List Char) : TildesEscape (escapeChars cs) := by
  induction cs with
  | nil => exact fun before after whole => absurd whole.symm (by simp [escapeChars])
  | cons c cs ih =>
      by_cases tilde : c = '~'
      · rw [tilde, escapeChars_tilde]
        have escaped : TildesEscape ('0' :: escapeChars cs) :=
          ih.cons fun here => absurd here (by decide)
        exact escaped.cons fun _ => .inl rfl
      · by_cases slash : c = '/'
        · rw [slash, escapeChars_slash]
          have escaped : TildesEscape ('1' :: escapeChars cs) :=
            ih.cons fun here => absurd here (by decide)
          exact escaped.cons fun _ => .inr rfl
        · rw [escapeChars_char tilde slash]
          exact ih.cons fun here => absurd here tilde

theorem escapeChars_unescapeChars (noSlash : '/' ∉ cs) (tildes : TildesEscape cs) :
    escapeChars (unescapeChars cs) = cs := by
  fun_induction unescapeChars cs with
  | case1 rest ih =>
      have after : '/' ∉ rest := fun h => noSlash (by simp [h])
      rw [escapeChars_slash, ih after (tildes.of_append ['~', '1'])]
  | case2 rest ih =>
      have after : '/' ∉ rest := fun h => noSlash (by simp [h])
      rw [escapeChars_tilde, ih after (tildes.of_append ['~', '0'])]
  | case3 c rest noOne noZero ih =>
      rw [List.mem_cons, not_or] at noSlash
      have noTilde : c ≠ '~' := by
        rintro rfl
        rcases tildes [] rest rfl with zero | one
        · obtain ⟨tail, rfl⟩ := List.head?_eq_some_iff.1 zero
          exact noZero tail rfl rfl
        · obtain ⟨tail, rfl⟩ := List.head?_eq_some_iff.1 one
          exact noOne tail rfl rfl
      rw [escapeChars_char noTilde (Ne.symm noSlash.1),
        ih noSlash.2 (tildes.of_append [c])]
  | case4 => rfl

/-! ### One replacement after the other -/

theorem replaceChars_singleton (p : Char) (image cs : List Char) :
    replaceChars [p] image 0 cs = cs.flatMap fun c => if c = p then image else [c] := by
  have apart : Apart [p] := ⟨p, [], rfl, List.not_mem_nil⟩
  induction cs with
  | nil => rw [replaceChars]; rfl
  | cons c cs ih =>
      rw [List.flatMap_cons, ← ih]
      by_cases here : c = p
      · rw [if_pos here, here]
        exact apart.replaceChars_append
      · rw [if_neg here, Text.replaceChars_cons_of_not_here]
        · rfl
        · exact fun first => here (List.cons_prefix_cons.1 first).1.symm

theorem escapeChars_eq (cs : List Char) : escapeChars cs =
    replaceChars ['/'] ['~', '1'] 0 (replaceChars ['~'] ['~', '0'] 0 cs) := by
  rw [replaceChars_singleton, replaceChars_singleton, List.flatMap_assoc, escapeChars]
  refine congrArg (cs.flatMap ·) (funext fun c => ?_)
  by_cases tilde : c = '~'
  · rw [if_pos tilde, if_pos tilde]
    rfl
  · rw [if_neg tilde, if_neg tilde, List.flatMap_singleton]

/-- The first replacement makes no escaped tilde that was not there. -/
private theorem head?_replaceChars_one
    (zero : (replaceChars ['~', '1'] ['/'] 0 cs).head? = some '0') : cs.head? = some '0' := by
  have apart : Apart ['~', '1'] := ⟨'~', ['1'], rfl, by decide⟩
  cases cs with
  | nil => rw [replaceChars] at zero; cases zero
  | cons c rest =>
      by_cases here : ['~', '1'] <+: c :: rest
      · obtain ⟨tail, whole⟩ := here
        rw [← whole, apart.replaceChars_append] at zero
        cases zero
      · rw [Text.replaceChars_cons_of_not_here here] at zero
        exact zero

theorem unescapeChars_eq (cs : List Char) : unescapeChars cs =
    replaceChars ['~', '0'] ['~'] 0 (replaceChars ['~', '1'] ['/'] 0 cs) := by
  fun_induction unescapeChars cs with
  | case1 rest ih => rw [ih]; rfl
  | case2 rest ih => rw [ih]; rfl
  | case3 c rest noOne noZero ih =>
      have first : ¬['~', '1'] <+: c :: rest := by
        rintro ⟨tail, whole⟩
        obtain ⟨rfl, rfl⟩ := List.cons.inj whole
        exact noOne tail rfl rfl
      have second : ¬['~', '0'] <+: c :: replaceChars ['~', '1'] ['/'] 0 rest := by
        rintro ⟨tail, whole⟩
        obtain ⟨rfl, after⟩ := List.cons.inj whole
        have zero : (replaceChars ['~', '1'] ['/'] 0 rest).head? = some '0' := by
          rw [← after]
          rfl
        obtain ⟨tail, rfl⟩ := List.head?_eq_some_iff.1 (head?_replaceChars_one zero)
        exact noZero tail rfl rfl
      rw [Text.replaceChars_cons_of_not_here first, Text.replaceChars_cons_of_not_here second, ih]
  | case4 => rw [replaceChars, replaceChars]

/-- Texts and escaped texts are two forms of the same tokens, so different tokens make different
pointers. The two forms come from each other by replacement. -/
theorem escaped_tokens_faithful :
    (∀ s, escape s = Text.replace (Text.replace s "~" "~0") "/" "~1" ∧
      unescape s = Text.replace (Text.replace s "~1" "/") "~0" "~") ∧
    (∀ s, unescape (escape s) = s ∧ Escaped (escape s)) ∧
    (∀ t, Escaped t → escape (unescape t) = t) ∧
    ∀ tokens tokens', join tokens = join tokens' → tokens = tokens' := by
  refine ⟨fun s => ⟨?_, ?_⟩, fun s => ⟨?_, ?_, ?_⟩, ?_, fun _ _ => join_injective⟩
  · rw [escape, escapeChars_eq, Text.replace, Text.toList_replace]
    rfl
  · rw [unescape, unescapeChars_eq, Text.replace, Text.toList_replace]
    rfl
  · rw [unescape, escape, String.toList_ofList, unescapeChars_escapeChars, String.ofList_toList]
  · rw [escape, String.toList_ofList]
    exact slash_not_mem_escapeChars s.toList
  · rw [escape, String.toList_ofList]
    exact tildesEscape_escapeChars s.toList
  · rintro t ⟨noSlash, tildes⟩
    rw [escape, unescape, String.toList_ofList, escapeChars_unescapeChars noSlash tildes,
      String.ofList_toList]

/-- An escaped tilde before a one is no escaped slash. -/
theorem escaped_tokens_faithful_in_tildes : Escaped "~01~1~0" ∧ unescape "~01~1~0" = "~1/~" ∧
    escape (unescape "~01~1~0") = "~01~1~0" := by
  have escaped : Escaped "~01~1~0" :=
    ⟨by decide, tildesEscape_escapeChars ['~', '1', '/', '~']⟩
  exact ⟨escaped, by decide, escaped_tokens_faithful.2.2.1 _ escaped⟩

end FormTree.Pointer
