import TreeWat.Proofs.Datum.Printing
import TreeWat.Proofs.Text.Line
set_option autoImplicit false

/-!
# Data: line breaks in messages

The messages of the reader name the byte it stumbled over.  Nearly every one is looked for
behind blanks and cannot be a line break.  The exceptions are the byte behind a backslash in a
string and the byte behind `^`, which the reader takes as they are.  Other messages print a
datum, and a datum is printed on one line unless a string in it has several.

Main statements: `oneLine_text_of_read` and `WellFormed.oneLine_print_iff`.
-/

namespace TreeWat.Datum

/-- The message of the cause has a line break in it: the byte behind a backslash or behind
a mark of metadata. -/
def ReadCause.NamesBreak (cause : ReadCause) : Prop :=
  cause = .badEscape (byte '\n') ∨ cause = .bareMark (.byte (byte '\n'))

/-- What the message names is no line break, if the reader looked for it behind blanks. -/
def ReadCause.BehindBlanks : ReadCause → Prop
  | .trailing f => f ≠ .byte (byte '\n')
  | .misplaced b => b ≠ byte '\n'
  | .strange b => b ≠ byte '\n'
  | .badKey f => f ≠ .byte (byte '\n')
  | .noColon f => f ≠ .byte (byte '\n')
  | .noComma f => f ≠ .byte (byte '\n')
  | _ => True

/-! ## Messages -/

theorem oneLine_found_iff {f : Found} : OneLine f.text ↔ f ≠ .byte (byte '\n') := by
  cases f with
  | endOfInput => simp +decide
  | byte b =>
    by_cases hb : b = byte '\n'
    · subst hb
      simp +decide
    · simp +decide [Found.text, hb, Utf8.oneLine_ofByte]

theorem oneLine_cause_iff {cause : ReadCause} (behind : cause.BehindBlanks) :
    OneLine cause.text ↔ ¬ cause.NamesBreak := by
  cases cause with
  | badEscape b =>
    by_cases hb : b = byte '\n'
    · subst hb
      simp +decide [ReadCause.NamesBreak]
    · simp +decide [ReadCause.text, ReadCause.NamesBreak, hb, Utf8.oneLine_ofByte]
  | bareMark f => simp +decide [ReadCause.text, ReadCause.NamesBreak, oneLine_found_iff]
  | trailing f =>
    have hfound := oneLine_found_iff.mpr behind
    simpa +decide [ReadCause.text, ReadCause.NamesBreak] using hfound
  | misplaced b =>
    have hbyte := Utf8.oneLine_ofByte behind
    simpa +decide [ReadCause.text, ReadCause.NamesBreak] using hbyte
  | strange b =>
    have hbyte := Utf8.oneLine_ofByte behind
    simpa +decide [ReadCause.text, ReadCause.NamesBreak] using hbyte
  | badKey f =>
    have hfound := oneLine_found_iff.mpr behind
    simpa +decide [ReadCause.text, ReadCause.NamesBreak] using hfound
  | noColon f =>
    have hfound := oneLine_found_iff.mpr behind
    simpa +decide [ReadCause.text, ReadCause.NamesBreak] using hfound
  | noComma f =>
    have hfound := oneLine_found_iff.mpr behind
    simpa +decide [ReadCause.text, ReadCause.NamesBreak] using hfound
  | _ => simp +decide [ReadCause.NamesBreak]

/-! ## What stands behind blanks -/

theorem skipBlanksFrom_ne_break {comment : Bool} {loc loc' : Location} {s r : Bytes} {b : UInt8}
    (next : skipBlanksFrom comment loc s = ⟨loc', b :: r⟩) : b ≠ byte '\n' := by
  induction s generalizing comment loc with
  | nil => cases next
  | cons a s ih =>
    rw [skipBlanksFrom] at next
    split at next
    · exact ih next
    · split at next
      · exact ih next
      · split at next
        · exact ih next
        · rename_i visible
          cases next
          rintro rfl
          exact visible (by decide)

theorem skipBlanks_ne_break {c : Cursor} {loc : Location} {b : UInt8} {r : Bytes}
    (next : c.skipBlanks = ⟨loc, b :: r⟩) : b ≠ byte '\n' :=
  skipBlanksFrom_ne_break next

theorem found_ne_break {b : UInt8} (other : b ≠ byte '\n') :
    Found.byte b ≠ .byte (byte '\n') := by
  simpa using other

/-! ## Refusals -/

theorem behindBlanks_of_readString {loc : Location} {s : Bytes} {e : ReadError}
    (refused : readString loc s = .error e) : e.cause.BehindBlanks := by
  fun_induction readString loc s with
  | case1 => cases refused; trivial
  | case3 => cases refused; trivial
  | case7 => cases refused; trivial
  | case5 _ _ _ _ _ _ hothers ih => cases refused; exact ih hothers
  | case8 _ _ _ _ _ _ _ hothers ih => cases refused; exact ih hothers
  | _ => cases refused

mutual

theorem behindBlanks_of_readDatum {c : Cursor} {e : ReadError}
    (refused : readDatum c = .error e) : e.cause.BehindBlanks := by
  rw [readDatum] at refused
  split at refused
  · cases refused
    trivial
  · rename_i loc b r next
    have hlt := Cursor.length_lt_of_skipBlanks next
    have hb := skipBlanks_ne_break next
    dsimp only at refused
    split at refused
    · split at refused
      · rename_i hcontents
        cases refused
        exact behindBlanks_of_readElements hcontents
      · cases refused
    · split at refused
      · split at refused
        · rename_i hentries
          cases refused
          exact behindBlanks_of_readEntries hentries
        · cases refused
      · split at refused
        · split at refused
          · rename_i hstring
            cases refused
            exact behindBlanks_of_readString hstring
          · cases refused
        · split at refused
          · cases refused
          · split at refused
            · cases refused
            · split at refused <;> cases refused <;> exact hb
termination_by (c.rest.length, 0)

theorem behindBlanks_of_readElements {c : Cursor} {e : ReadError}
    (refused : readElements c = .error e) : e.cause.BehindBlanks := by
  rw [readElements] at refused
  split at refused
  · cases refused
    trivial
  · rename_i loc b r next
    have hlt := Cursor.length_lt_of_skipBlanks next
    dsimp only at refused
    split at refused
    · cases refused
    · split at refused
      · split at refused
        · cases refused
          trivial
        · split at refused
          · split at refused
            · rename_i hentries
              cases refused
              have hlt' := Nat.lt_of_succ_lt hlt
              exact behindBlanks_of_readEntries hentries
            · rename_i ks vs c₁ h₁ hentries
              have hlt₁ := Nat.lt_trans h₁ (Nat.lt_of_succ_lt hlt)
              split at refused
              · rename_i hothers
                cases refused
                exact behindBlanks_of_readElements hothers
              · cases refused
          · cases refused
            trivial
      · split at refused
        · rename_i hfirst
          cases refused
          exact behindBlanks_of_readDatum hfirst
        · split at refused
          · rename_i hothers
            cases refused
            exact behindBlanks_of_readElements hothers
          · cases refused
termination_by (c.rest.length, 1)

theorem behindBlanks_of_readEntries {c : Cursor} {e : ReadError}
    (refused : readEntries c = .error e) : e.cause.BehindBlanks := by
  rw [readEntries] at refused
  split at refused
  · cases refused
    simp [ReadCause.BehindBlanks]
  · rename_i loc b r next
    have hlt := Cursor.length_lt_of_skipBlanks next
    dsimp only at refused
    split at refused
    · cases refused
    · split at refused
      · have hkey := takeRun_length_le isSymbolByte (loc.next b) r
        split at refused
        · cases refused
          simp [ReadCause.BehindBlanks]
        · rename_i loc₁ b₁ r₁ colon
          have hlt₁ : r₁.length < c.rest.length :=
            Nat.lt_trans (Nat.lt_of_lt_of_le (Cursor.length_lt_of_skipBlanks colon) hkey) hlt
          split at refused
          · split at refused
            · rename_i hfirst
              cases refused
              exact behindBlanks_of_readDatum hfirst
            · rename_i c₂ h₂ hfirst
              split at refused
              · cases refused
                simp [ReadCause.BehindBlanks]
              · rename_i loc₂ b₂ r₂ behind
                have hlt₂ : r₂.length < c.rest.length :=
                  Nat.lt_trans (Cursor.length_lt_of_skipBlanks behind) (Nat.lt_trans h₂ hlt₁)
                split at refused
                · split at refused
                  · rename_i hothers
                    cases refused
                    exact behindBlanks_of_readEntries hothers
                  · cases refused
                · split at refused
                  · cases refused
                  · cases refused
                    exact found_ne_break (skipBlanks_ne_break behind)
          · cases refused
            exact found_ne_break (skipBlanks_ne_break colon)
      · cases refused
        exact found_ne_break (skipBlanks_ne_break next)
termination_by (c.rest.length, 0)

end

theorem behindBlanks_of_read {s : Bytes} {e : ReadError} (refused : read s = .error e) :
    e.cause.BehindBlanks := by
  unfold read at refused
  split at refused
  · rename_i hdatum
    cases refused
    exact behindBlanks_of_readDatum hdatum
  · split at refused
    · cases refused
    · rename_i behind
      cases refused
      exact found_ne_break (skipBlanks_ne_break behind)

/-- A refusal inside the first string of a text refuses the text. -/
theorem read_of_readString {loc : Location} {s r : Bytes} {e : ReadError}
    (next : (⟨.start, s⟩ : Cursor).skipBlanks = ⟨loc, byte '"' :: r⟩)
    (refused : readString (loc.next (byte '"')) r = .error e) : read s = .error e := by
  have hdatum : readDatum ⟨.start, s⟩ = .error e := by
    rw [readDatum]
    split <;> rename_i hs <;> rw [next] at hs <;> cases hs
    simp +decide [refused]
  simp [read, hdatum]

/-- The message of a refusal fits on one line, unless a line break stands behind a backslash
or behind a mark of metadata. -/
theorem oneLine_text_of_read {s : Bytes} {e : ReadError} (refused : read s = .error e) :
    OneLine e.text ↔ ¬ e.cause.NamesBreak := by
  have hcause := oneLine_cause_iff (behindBlanks_of_read refused)
  simp +decide [ReadError.text, hcause]

/-! ## Printed data -/

/-- A string somewhere in the datum has a line break. -/
inductive HasBreak : Datum → Prop where
  | string {loc text} (broken : byte '\n' ∈ text) : HasBreak (.atom .string loc text)
  | note {loc keys values items v} (mem : v ∈ values) (below : HasBreak v) :
      HasBreak (.list loc keys values items)
  | item {loc keys values items d} (mem : d ∈ items) (below : HasBreak d) :
      HasBreak (.list loc keys values items)
  | value {loc keys values v} (mem : v ∈ values) (below : HasBreak v) :
      HasBreak (.map loc keys values)

section HasBreak

variable {loc : Location} {text : Bytes} {keys : List Bytes} {values items : List Datum}

theorem hasBreak_string : HasBreak (.atom .string loc text) ↔ ¬ OneLine text := by
  refine ⟨fun h => ?_, fun h => .string (Decidable.not_not.mp h)⟩
  cases h with
  | string broken => exact not_not_intro broken

theorem hasBreak_list : HasBreak (.list loc keys values items) ↔
    (∃ v ∈ values, v.HasBreak) ∨ ∃ d ∈ items, d.HasBreak := by
  refine ⟨fun h => ?_, ?_⟩
  · cases h with
    | note mem below => exact .inl ⟨_, mem, below⟩
    | item mem below => exact .inr ⟨_, mem, below⟩
  · rintro (⟨v, mem, below⟩ | ⟨d, mem, below⟩)
    · exact .note mem below
    · exact .item mem below

theorem hasBreak_map : HasBreak (.map loc keys values) ↔ ∃ v ∈ values, v.HasBreak := by
  refine ⟨fun h => ?_, fun ⟨v, mem, below⟩ => .value mem below⟩
  cases h with
  | value mem below => exact ⟨_, mem, below⟩

end HasBreak

theorem oneLine_of_isSymbolByte {text : Bytes} (all : text.all isSymbolByte = true) :
    OneLine text :=
  oneLine_of_forall (p := isSymbolByte) (by decide) (List.all_eq_true.mp all)

theorem oneLine_of_isSymbolText {text : Bytes} (spelled : isSymbolText text = true) :
    OneLine text := by
  cases text with
  | nil => exact oneLine_nil
  | cons b r =>
    simp only [isSymbolText, Bool.and_eq_true] at spelled
    obtain ⟨⟨starts, -⟩, others⟩ := spelled
    refine oneLine_cons.mpr ⟨?_, oneLine_of_isSymbolByte others⟩
    rintro rfl
    exact absurd starts (by decide)

theorem oneLine_of_isIntegerText {text : Bytes} (spelled : isIntegerText text = true) :
    OneLine text := by
  cases text with
  | nil => exact oneLine_nil
  | cons b r =>
    simp only [isIntegerText, Bool.and_eq_true] at spelled
    obtain ⟨starts, digits⟩ := spelled
    refine oneLine_cons.mpr ⟨startsInteger_ne starts (by decide), ?_⟩
    exact oneLine_of_forall (p := Bytes.isDigit) (by decide) (List.all_eq_true.mp digits)

theorem oneLine_of_isKeyText {text : Bytes} (spelled : isKeyText text = true) :
    OneLine text := by
  cases text with
  | nil => exact oneLine_nil
  | cons b r =>
    simp only [isKeyText, Bool.and_eq_true] at spelled
    obtain ⟨starts, others⟩ := spelled
    refine oneLine_cons.mpr ⟨?_, oneLine_of_isSymbolByte others⟩
    rintro rfl
    exact absurd starts (by decide)

@[simp] theorem oneLine_escapeString {s : Bytes} : OneLine (escapeString s) ↔ OneLine s := by
  induction s with
  | nil => simp [escapeString]
  | cons b r ih =>
    rw [escapeString]
    split
    · simp +decide [ih]
    · simp [ih]

theorem oneLine_printItems {spaced : Bool} {ds : List Datum} :
    OneLine (printItems spaced ds) ↔ ∀ d ∈ ds, OneLine d.print := by
  induction ds generalizing spaced with
  | nil => simp [printItems]
  | cons d rest ih => cases spaced <;> simp +decide [printItems, ih]

theorem oneLine_printEntries (first : Bool) {keys : List Bytes} {values : List Datum}
    (spelled : ∀ k ∈ keys, isKeyText k = true) (paired : keys.length = values.length) :
    OneLine (printEntries first keys values) ↔ ∀ v ∈ values, OneLine v.print := by
  induction values generalizing first keys with
  | nil => simp [printEntries]
  | cons v vs ih =>
    cases keys with
    | nil => cases paired
    | cons k ks =>
      obtain ⟨hk, hks⟩ := List.forall_mem_cons.mp spelled
      have hothers := ih false hks (Nat.succ.inj paired)
      have hkey := oneLine_of_isKeyText hk
      cases first <;> simp +decide [printEntries, hothers, hkey]

/-- A well-formed datum is printed on one line, unless a string in it has a line break. -/
theorem WellFormed.oneLine_print_iff {d : Datum} (h : d.WellFormed) :
    OneLine d.print ↔ ¬ d.HasBreak := by
  induction h with
  | symbol spelled =>
    have htext := oneLine_of_isSymbolText spelled
    simp only [print, htext, true_iff]
    rintro ⟨⟩
  | integer spelled =>
    have htext := oneLine_of_isIntegerText spelled
    simp only [print, htext, true_iff]
    rintro ⟨⟩
  | string => simp +decide [print, printString, hasBreak_string, Decidable.not_not]
  | @list loc keys values items spelled _ paired _ _ ihnotes ihitems =>
    have hnotes : (∀ v ∈ values, OneLine v.print) ↔ ∀ v ∈ values, ¬ v.HasBreak :=
      forall₂_congr ihnotes
    have hitems : (∀ d ∈ items, OneLine d.print) ↔ ∀ d ∈ items, ¬ d.HasBreak :=
      forall₂_congr ihitems
    cases keys with
    | nil =>
      obtain rfl := List.length_eq_zero_iff.mp paired.symm
      simp +decide [print, oneLine_printItems, hitems, hasBreak_list]
    | cons k ks =>
      have hentries := oneLine_printEntries true spelled paired
      simp +decide [print, hentries, oneLine_printItems, hnotes, hitems, hasBreak_list, not_or]
  | @map loc keys values spelled paired _ ih =>
    have hvalues : (∀ v ∈ values, OneLine v.print) ↔ ∀ v ∈ values, ¬ v.HasBreak :=
      forall₂_congr ih
    have hentries := oneLine_printEntries true spelled paired
    simp +decide [print, hentries, hvalues, hasBreak_map]

end TreeWat.Datum
