import TreeWat.Proofs.Datum.Printing
import TreeWat.Proofs.Text.Line
set_option autoImplicit false

/-!
# Data: the grammar of the notation

The notation as relations between texts and what they spell.  A text stands at a location
with `rest` behind it, of which only the first byte matters: a number or a symbol goes on
as far as it can.  The relations mention neither the cursor nor the order in which the
reader tries its branches.

Main statement: a text is read as a datum exactly if the grammar derives the datum from
the text; it derives at most one, and a text from which it derives none is refused
(`read_ok_iff_derives`).
-/

namespace TreeWat

namespace Location

@[simp] theorem skip_nil (l : Location) : l.skip [] = l := rfl

@[simp] theorem skip_cons (l : Location) (b : UInt8) (s : Bytes) :
    l.skip (b :: s) = (l.next b).skip s := rfl

@[simp] theorem skip_append (l : Location) (s t : Bytes) :
    l.skip (s ++ t) = (l.skip s).skip t := List.foldl_append

end Location

namespace Datum

/-! ## Tokens -/

/-- White space between tokens: blanks, and comments from a semicolon to the end of their
line.  At the end of the input the last line needs no end. -/
inductive Spacing : (atEnd : Bool) → Bytes → Prop where
  | none {atEnd} : Spacing atEnd []
  | blank {atEnd b s} (isBlank : isBlank b = true) (others : Spacing atEnd s) :
      Spacing atEnd (b :: s)
  | comment {atEnd line s} (oneLine : byte '\n' ∉ line) (others : Spacing atEnd s) :
      Spacing atEnd (byte ';' :: (line ++ byte '\n' :: s))
  | lastComment {line} (oneLine : byte '\n' ∉ line) : Spacing true (byte ';' :: line)

/-- An integer: an optional sign and at least one digit. -/
def IsNumeral (text : Bytes) : Prop :=
  ∃ sign digits, text = sign ++ digits ∧ sign ∈ [[], [byte '+'], [byte '-']] ∧ digits ≠ [] ∧
    ∀ d ∈ digits, Bytes.isDigit d = true

/-- A symbol: a letter, an underscore, a minus sign or an operator character, and any
characters of symbols behind it; a sign is not followed by a digit. -/
def IsName (text : Bytes) : Prop :=
  ∃ b r, text = b :: r ∧ isSymbolStart b = true ∧ (∀ x ∈ r, isSymbolByte x = true) ∧
    ¬((b = byte '+' ∨ b = byte '-') ∧ ∃ d ∈ r.head?, Bytes.isDigit d = true)

/-- A key: a symbol that starts with a letter or an underscore. -/
def IsKey (text : Bytes) : Prop :=
  ∃ b r, text = b :: r ∧ isWordStart b = true ∧ ∀ x ∈ r, isSymbolByte x = true

/-- What stands between the quotes of a string, and the string. -/
inductive Escapes : Bytes → Bytes → Prop where
  | none : Escapes [] []
  | escaped {b raw text} (escapable : b = byte '"' ∨ b = byte '\\') (others : Escapes raw text) :
      Escapes (byte '\\' :: b :: raw) (b :: text)
  | plain {b raw text} (noQuote : b ≠ byte '"') (noEscape : b ≠ byte '\\')
      (others : Escapes raw text) : Escapes (b :: raw) (b :: text)

/-! ## Data -/

mutual

/-- The text at the location, with `rest` behind it, spells the datum. -/
inductive Spells : Location → (text rest : Bytes) → Datum → Prop where
  | integer {loc text rest} (numeral : IsNumeral text)
      (maximal : ∀ b ∈ rest.head?, Bytes.isDigit b = false) :
      Spells loc text rest (.atom .integer loc text)
  | symbol {loc text rest} (name : IsName text)
      (maximal : ∀ b ∈ rest.head?, isSymbolByte b = false) :
      Spells loc text rest (.atom .symbol loc text)
  | string {loc raw text rest} (contents : Escapes raw text) :
      Spells loc (byte '"' :: (raw ++ [byte '"'])) rest (.atom .string loc text)
  | list {loc body rest es} (contents : SpellsElements (loc.next (byte '(')) body rest es) :
      Spells loc (byte '(' :: body) rest (ofElements loc es)
  | map {loc body rest keys values}
      (entries : SpellsEntries (loc.next (byte '\x7b')) body rest keys values) :
      Spells loc (byte '\x7b' :: body) rest (.map loc keys values)

/-- The text spells contents of a list, items mixed with metadata, and the closing
bracket. -/
inductive SpellsElements : Location → (text rest : Bytes) → List Element → Prop where
  | close {loc ws rest} (space : Spacing false ws) :
      SpellsElements loc (ws ++ [byte ')']) rest []
  | item {loc ws text more rest d es} (space : Spacing false ws)
      (first : Spells (loc.skip ws) text (more ++ rest) d)
      (others : SpellsElements ((loc.skip ws).skip text) more rest es) :
      SpellsElements loc (ws ++ text ++ more) rest (.item d :: es)
  | note {loc ws text more rest keys values es} (space : Spacing false ws)
      (entries : SpellsEntries (((loc.skip ws).next (byte '^')).next (byte '\x7b')) text
        (more ++ rest) keys values)
      (others : SpellsElements ((((loc.skip ws).next (byte '^')).next (byte '\x7b')).skip text)
        more rest es) :
      SpellsElements loc (ws ++ byte '^' :: byte '\x7b' :: (text ++ more)) rest
        (.note keys values :: es)

/-- The text spells entries of a map and the closing brace.  A comma stands between two
entries and may stand behind the last one. -/
inductive SpellsEntries : Location → (text rest : Bytes) → List Bytes → List Datum → Prop where
  | close {loc ws rest} (space : Spacing false ws) :
      SpellsEntries loc (ws ++ [byte '\x7d']) rest [] []
  | last {loc text ws rest key value}
      (first : SpellsEntry loc text (ws ++ byte '\x7d' :: rest) key value)
      (space : Spacing false ws) :
      SpellsEntries loc (text ++ ws ++ [byte '\x7d']) rest [key] [value]
  | cons {loc text ws more rest key value keys values}
      (first : SpellsEntry loc text (ws ++ byte ',' :: (more ++ rest)) key value)
      (space : Spacing false ws)
      (others : SpellsEntries (((loc.skip text).skip ws).next (byte ',')) more rest keys values) :
      SpellsEntries loc (text ++ ws ++ byte ',' :: more) rest (key :: keys) (value :: values)

/-- The text spells a key, a colon and a value. -/
inductive SpellsEntry : Location → (text rest : Bytes) → Bytes → Datum → Prop where
  | intro {loc ws₁ key ws₂ ws₃ text rest value} (space₁ : Spacing false ws₁) (isKey : IsKey key)
      (space₂ : Spacing false ws₂) (space₃ : Spacing false ws₃)
      (spelled : Spells (((((loc.skip ws₁).skip key).skip ws₂).next (byte ':')).skip ws₃) text rest
        value) :
      SpellsEntry loc (ws₁ ++ key ++ ws₂ ++ byte ':' :: (ws₃ ++ text)) rest key value

end

/-- The grammar derives the datum from the whole text, white space around it included. -/
def Derives (s : Bytes) (d : Datum) : Prop :=
  ∃ ws text end_, s = ws ++ text ++ end_ ∧ Spacing false ws ∧ Spacing true end_ ∧
    Spells (Location.start.skip ws) text end_ d

/-! ## The grammar and the spellings of well-formed data -/

theorem isIntegerText_iff {text : Bytes} : isIntegerText text = true ↔ IsNumeral text := by
  constructor
  · intro h
    cases text with
    | nil => cases h
    | cons b r =>
      simp only [isIntegerText, startsInteger, Bool.and_eq_true, Bool.or_eq_true, beq_iff_eq,
        List.all_eq_true] at h
      obtain ⟨hdigit | ⟨hsign, hnext⟩, hall⟩ := h
      · exact ⟨[], b :: r, rfl, by simp, by simp, by simpa [hdigit] using hall⟩
      · refine ⟨[b], r, rfl, ?_, ?_, hall⟩
        · rcases hsign with rfl | rfl <;> simp
        · rintro rfl
          cases hnext
  · rintro ⟨sign, digits, rfl, hsign, hne, hall⟩
    obtain ⟨d, r, rfl⟩ := List.exists_cons_of_ne_nil hne
    have hd := hall d List.mem_cons_self
    have hr : ∀ x ∈ r, Bytes.isDigit x = true := fun x hx => hall x (List.mem_cons_of_mem _ hx)
    simp only [List.mem_cons, List.not_mem_nil, or_false] at hsign
    rcases hsign with rfl | rfl | rfl
    · simpa [isIntegerText, startsInteger, hd] using hr
    · simpa [isIntegerText, startsInteger, hd] using hr
    · simpa [isIntegerText, startsInteger, hd] using hr

theorem isDigit_of_isSymbolStart {b : UInt8} :
    isSymbolStart b = true → Bytes.isDigit b = false :=
  forall_byte (P := fun b => isSymbolStart b = true → Bytes.isDigit b = false)
    (by decide +kernel) b

theorem isSymbolByte_of_isBlank {b : UInt8} :
    isBlank b = true → isSymbolByte b = false :=
  forall_byte (P := fun b => isBlank b = true → isSymbolByte b = false) (by decide +kernel) b

theorem isSymbolText_iff {text : Bytes} : isSymbolText text = true ↔ IsName text := by
  have hsign : ∀ {b : UInt8} {r : Bytes}, isSymbolStart b = true → (startsInteger b r = false ↔
      ¬((b = byte '+' ∨ b = byte '-') ∧ ∃ d ∈ r.head?, Bytes.isDigit d = true)) := by
    intro b r starts
    cases r <;> simp [startsInteger, isDigit_of_isSymbolStart starts]
  unfold IsName
  cases text with
  | nil => simp [isSymbolText]
  | cons b r =>
    simp only [isSymbolText, Bool.and_eq_true, Bool.not_eq_true', List.all_eq_true]
    constructor
    · rintro ⟨⟨starts, noInteger⟩, hall⟩
      exact ⟨b, r, rfl, starts, hall, (hsign starts).mp noInteger⟩
    · rintro ⟨b, r, heq, starts, hall, noInteger⟩
      cases heq
      exact ⟨⟨starts, (hsign starts).mpr noInteger⟩, hall⟩

theorem isKeyText_iff {text : Bytes} : isKeyText text = true ↔ IsKey text := by
  unfold IsKey
  cases text with
  | nil => simp [isKeyText]
  | cons b r =>
    simp only [isKeyText, Bool.and_eq_true, List.all_eq_true]
    constructor
    · rintro ⟨starts, hall⟩
      exact ⟨b, r, rfl, starts, hall⟩
    · rintro ⟨b, r, heq, starts, hall⟩
      cases heq
      exact ⟨starts, hall⟩

/-! ## Everything derived is read -/

theorem skipBlanksFrom_comment {line s : Bytes} (oneLine : byte '\n' ∉ line) (loc : Location) :
    skipBlanksFrom true loc (line ++ byte '\n' :: s) =
      skipBlanksFrom false ((loc.skip line).next (byte '\n')) s := by
  induction line generalizing loc with
  | nil => simp [skipBlanksFrom]
  | cons b line ih =>
    simp only [List.mem_cons, not_or] at oneLine
    have hb : (b != byte '\n') = true := by simpa using Ne.symm oneLine.1
    simp only [List.cons_append, skipBlanksFrom, if_true, hb]
    exact ih oneLine.2 _

theorem skipBlanksFrom_lastComment {line : Bytes} (oneLine : byte '\n' ∉ line) (loc : Location) :
    skipBlanksFrom true loc line = ⟨loc.skip line, []⟩ := by
  induction line generalizing loc with
  | nil => rfl
  | cons b line ih =>
    simp only [List.mem_cons, not_or] at oneLine
    have hb : (b != byte '\n') = true := by simpa using Ne.symm oneLine.1
    simp only [skipBlanksFrom, if_true, hb]
    exact ih oneLine.2 _

theorem isBlank_ne {b : UInt8} (blank : isBlank b = true) : b ≠ byte ';' := by
  rintro rfl
  exact absurd blank (by decide)

/-- White space is skipped. -/
theorem Spacing.skipBlanks {ws : Bytes} (space : Spacing false ws) (loc : Location) (s : Bytes) :
    (⟨loc, ws ++ s⟩ : Cursor).skipBlanks = (⟨loc.skip ws, s⟩ : Cursor).skipBlanks := by
  generalize hend : false = atEnd at space
  induction space generalizing loc with
  | none => rfl
  | blank isBlank _ ih => exact (skipBlanks_blank isBlank).trans (ih _ hend)
  | @comment _ line s' oneLine _ ih =>
    have hline := skipBlanksFrom_comment (s := s' ++ s) oneLine (loc.next (byte ';'))
    have hnext := ih (((loc.next (byte ';')).skip line).next (byte '\n')) hend
    simp only [Cursor.skipBlanks] at hnext ⊢
    simp [skipBlanksFrom, hline, hnext]
  | lastComment => cases hend

/-- Nothing is left of white space that ends the input. -/
theorem Spacing.skipBlanks_atEnd {atEnd : Bool} {ws : Bytes} (space : Spacing atEnd ws)
    (loc : Location) : (⟨loc, ws⟩ : Cursor).skipBlanks.rest = [] := by
  unfold Cursor.skipBlanks
  induction space generalizing loc with
  | none => rfl
  | blank isBlank _ ih =>
    simp only [skipBlanksFrom, Bool.false_eq_true, if_false, isBlank_ne isBlank, isBlank, if_true]
    exact ih _
  | comment oneLine _ ih =>
    simp only [skipBlanksFrom, Bool.false_eq_true, if_false, if_true]
    rw [skipBlanksFrom_comment oneLine]
    exact ih _
  | lastComment oneLine =>
    simp only [skipBlanksFrom, Bool.false_eq_true, if_false, if_true]
    rw [skipBlanksFrom_lastComment oneLine]

theorem Spacing.skipBlanks_visible {ws : Bytes} (space : Spacing false ws) {b : UInt8}
    (visible : isBlank b = false) (noComment : b ≠ byte ';') (loc : Location) (r : Bytes) :
    (⟨loc, ws ++ b :: r⟩ : Cursor).skipBlanks = ⟨loc.skip ws, b :: r⟩ :=
  (space.skipBlanks loc _).trans (Datum.skipBlanks_visible visible noComment)

/-- White space continues no symbol. -/
theorem Spacing.delimited {ws s : Bytes} (space : Spacing false ws) (behind : Delimited s) :
    Delimited (ws ++ s) := by
  cases space with
  | none => exact behind
  | blank isBlank _ => exact delimited_cons (isSymbolByte_of_isBlank isBlank)
  | comment _ _ => exact delimited_cons (by decide)

/-- A spelled datum starts as a datum does. -/
theorem Spells.start {loc : Location} {text rest : Bytes} {d : Datum}
    (spelled : Spells loc text rest d) : ∃ b r, text = b :: r ∧ startsDatum b = true := by
  cases spelled with
  | integer numeral _ =>
    have h := isIntegerText_iff.mpr numeral
    cases text with
    | nil => cases h
    | cons b r =>
      simp only [isIntegerText, Bool.and_eq_true] at h
      exact ⟨b, r, rfl, startsDatum_of_startsInteger h.1⟩
  | symbol name _ =>
    obtain ⟨b, r, rfl, starts, -, -⟩ := name
    exact ⟨b, r, rfl, by simp [startsDatum, starts]⟩
  | string _ => exact ⟨_, _, rfl, by decide⟩
  | list _ => exact ⟨_, _, rfl, by decide⟩
  | map _ => exact ⟨_, _, rfl, by decide⟩

/-- White space in front of a datum is skipped, and nothing else. -/
theorem Spells.skipBlanks {loc : Location} {ws text rest : Bytes} {d : Datum}
    (space : Spacing false ws) (spelled : Spells (loc.skip ws) text rest d) :
    (⟨loc, ws ++ (text ++ rest)⟩ : Cursor).skipBlanks = ⟨loc.skip ws, text ++ rest⟩ := by
  obtain ⟨b, r, rfl, starts⟩ := spelled.start
  exact (space.skipBlanks loc _).trans (skipBlanks_starts starts)

theorem Escapes.readsString {raw text : Bytes} (contents : Escapes raw text) (loc : Location)
    (rest : Bytes) :
    ReadsString loc (raw ++ byte '"' :: rest) text ⟨(loc.skip raw).next (byte '"'), rest⟩ := by
  induction contents generalizing loc with
  | none => exact .close loc rest
  | escaped escapable _ ih => exact .escape escapable (ih _)
  | plain noQuote noEscape _ ih => exact .plain noQuote noEscape (ih _)

/-- A key is read up to its end, and then its colon and its value. -/
theorem IsKey.readsEntry {key ws₁ ws₂ s : Bytes} {loc : Location} {value : Datum} {c' : Cursor}
    (isKey : IsKey key) (space₁ : Spacing false ws₁) (space₂ : Spacing false ws₂)
    (spelled : Reads ⟨(((loc.skip ws₁).skip key).skip ws₂).next (byte ':'), s⟩ value c') :
    ReadsEntry ⟨loc, ws₁ ++ (key ++ (ws₂ ++ byte ':' :: s))⟩ key value c' := by
  obtain ⟨b, r, rfl, starts, inside⟩ := isKey
  have next := (space₁.skipBlanks loc (b :: (r ++ (ws₂ ++ byte ':' :: s)))).trans
    (skipBlanks_starts (startsDatum_of_isWordStart starts))
  have hkey : takeRun isSymbolByte ((loc.skip ws₁).next b) (r ++ (ws₂ ++ byte ':' :: s)) =
      (r, ⟨((loc.skip ws₁).next b).skip r, ws₂ ++ byte ':' :: s⟩) :=
    takeRun_append _ (by simpa using inside) (space₂.delimited (delimited_cons (by decide)))
  have colon := space₂.skipBlanks_visible (b := byte ':') (by decide) (by decide)
    (((loc.skip ws₁).next b).skip r) s
  have hread := ReadsEntry.intro next starts (by rw [hkey]; exact colon) spelled
  rw [hkey] at hread
  exact hread

mutual

/-- A derived datum is read. -/
theorem Spells.reads {loc : Location} {text rest : Bytes} {d : Datum} :
    Spells loc text rest d → ∀ {c : Cursor}, c.skipBlanks = ⟨loc, text ++ rest⟩ →
      Reads c d ⟨loc.skip text, rest⟩
  | .integer numeral maximal, c, next => by
    have spelled := isIntegerText_iff.mpr numeral
    cases text with
    | nil => cases spelled
    | cons b r =>
      simp only [isIntegerText, Bool.and_eq_true] at spelled
      have starts : startsInteger b (r ++ rest) = true := by
        cases r with
        | cons d r => exact spelled.1
        | nil =>
          have hdigit : Bytes.isDigit b = true := by simpa [startsInteger] using spelled.1
          simp [startsInteger, hdigit]
      have hread := Reads.integer (r := r ++ rest) next starts
      rw [takeRun_append _ spelled.2 maximal] at hread
      exact hread
  | .symbol name maximal, c, next => by
    have spelled := isSymbolText_iff.mpr name
    cases text with
    | nil => cases spelled
    | cons b r =>
      simp only [isSymbolText, Bool.and_eq_true, Bool.not_eq_true'] at spelled
      have hread := Reads.symbol (r := r ++ rest) next spelled.1.1
        (by rw [startsInteger_append maximal, spelled.1.2])
      rw [takeRun_append _ spelled.2 maximal] at hread
      exact hread
  | .string contents, c, next => by
    have hread := Reads.string (by simpa using next) (contents.readsString _ rest)
    simpa using hread
  | .list contents, c, next => .list next contents.reads
  | .map entries, c, next => .map next entries.reads

/-- Derived contents of a list are read. -/
theorem SpellsElements.reads {loc : Location} {text rest : Bytes} {es : List Element} :
    SpellsElements loc text rest es →
      ReadsElements ⟨loc, text ++ rest⟩ es ⟨loc.skip text, rest⟩
  | .close space => by
    have next := space.skipBlanks_visible (b := byte ')') (by decide) (by decide) loc rest
    have hread := ReadsElements.nil next
    simpa using hread
  | .item space first others => by
    obtain ⟨b, r, htext, starts⟩ := first.start
    have next := first.skipBlanks space
    have hfirst := first.reads next
    have hread := ReadsElements.item (by rw [next, htext]; rfl) (startsDatum_ne starts (by decide))
      (startsDatum_ne starts (by decide)) hfirst others.reads
    simpa using hread
  | .note space entries others => by
    have hread := ReadsElements.note
      (space.skipBlanks_visible (b := byte '^') (by decide) (by decide) loc _)
      entries.reads others.reads
    simpa using hread

/-- Derived entries of a map are read. -/
theorem SpellsEntries.reads {loc : Location} {text rest : Bytes} {keys : List Bytes}
    {values : List Datum} :
    SpellsEntries loc text rest keys values →
      ReadsEntries ⟨loc, text ++ rest⟩ keys values ⟨loc.skip text, rest⟩
  | .close space => by
    have next := space.skipBlanks_visible (b := byte '\x7d') (by decide) (by decide) loc rest
    have hread := ReadsEntries.nil next
    simpa using hread
  | .last first space => by
    have hread := first.reads.last
      (space.skipBlanks_visible (b := byte '\x7d') (by decide) (by decide) _ _)
    simpa using hread
  | .cons first space others => by
    have hread := first.reads.cons
      (space.skipBlanks_visible (b := byte ',') (by decide) (by decide) _ _) others.reads
    simpa using hread

/-- A derived entry is read. -/
theorem SpellsEntry.reads {loc : Location} {text rest key : Bytes} {value : Datum} :
    SpellsEntry loc text rest key value →
      ReadsEntry ⟨loc, text ++ rest⟩ key value ⟨loc.skip text, rest⟩
  | .intro space₁ isKey space₂ space₃ spelled => by
    have hvalue := spelled.reads (spelled.skipBlanks space₃)
    simpa using isKey.readsEntry space₁ space₂ hvalue

end

/-! ## Everything read is derived -/

/-- The text stands between the two cursors. -/
structure Cursor.Passes (c : Cursor) (text : Bytes) (c' : Cursor) : Prop where
  rest : c.rest = text ++ c'.rest
  loc : c'.loc = c.loc.skip text

theorem Cursor.Passes.byte (loc : Location) (b : UInt8) (r : Bytes) :
    (⟨loc, b :: r⟩ : Cursor).Passes [b] ⟨loc.next b, r⟩ :=
  ⟨rfl, rfl⟩

theorem Cursor.Passes.trans {c c₁ c' : Cursor} {s t : Bytes} (first : c.Passes s c₁)
    (second : c₁.Passes t c') : c.Passes (s ++ t) c' :=
  ⟨by rw [first.rest, second.rest, List.append_assoc],
    by rw [second.loc, first.loc, Location.skip_append]⟩

/-- A comment may have one more byte in its first line. -/
theorem Spacing.comment_cons {atEnd : Bool} {ws : Bytes} {b : UInt8} (inLine : b ≠ byte '\n')
    (space : Spacing atEnd (byte ';' :: ws)) : Spacing atEnd (byte ';' :: b :: ws) := by
  cases space with
  | blank blank _ => exact absurd rfl (isBlank_ne blank)
  | @comment _ line s oneLine others =>
    have honeLine : byte '\n' ∉ b :: line := by
      simpa [oneLine] using inLine.symm
    exact .comment honeLine others
  | lastComment oneLine => exact .lastComment (by simpa [oneLine] using inLine.symm)

/-- What is skipped is white space; inside a comment, once its semicolon is added. -/
theorem passes_skipBlanksFrom (comment : Bool) (loc : Location) (s : Bytes) :
    ∃ ws, Spacing (skipBlanksFrom comment loc s).rest.isEmpty
        (if comment then byte ';' :: ws else ws) ∧
      (⟨loc, s⟩ : Cursor).Passes ws (skipBlanksFrom comment loc s) := by
  induction s generalizing comment loc with
  | nil =>
    refine ⟨[], ?_, ⟨rfl, rfl⟩⟩
    cases comment with
    | false => exact .none
    | true => exact .lastComment (by simp)
  | cons b r ih =>
    cases comment with
    | true =>
      simp only [skipBlanksFrom, if_true]
      obtain ⟨ws, space, passes⟩ := ih (b != byte '\n') (loc.next b)
      refine ⟨b :: ws, ?_, (Cursor.Passes.byte loc b r).trans passes⟩
      by_cases newline : b = byte '\n'
      · subst newline
        exact .comment List.not_mem_nil (by simpa using space)
      · have hline : (b != byte '\n') = true := by simpa using newline
        simp only [hline, if_true] at space ⊢
        exact space.comment_cons newline
    | false =>
      simp only [skipBlanksFrom, Bool.false_eq_true, if_false]
      split
      · rename_i semicolon
        subst semicolon
        obtain ⟨ws, space, passes⟩ := ih true (loc.next (byte ';'))
        exact ⟨byte ';' :: ws, by simpa using space,
          (Cursor.Passes.byte loc (byte ';') r).trans passes⟩
      · split
        · rename_i blank
          obtain ⟨ws, space, passes⟩ := ih false (loc.next b)
          exact ⟨b :: ws, .blank blank (by simpa using space),
            (Cursor.Passes.byte loc b r).trans passes⟩
        · exact ⟨[], .none, ⟨rfl, rfl⟩⟩

/-- Only white space stands in front of the byte that is next. -/
theorem passes_of_skipBlanks {c : Cursor} {loc : Location} {b : UInt8} {r : Bytes}
    (next : c.skipBlanks = ⟨loc, b :: r⟩) : ∃ ws, Spacing false ws ∧ c.Passes ws ⟨loc, b :: r⟩ := by
  obtain ⟨ws, space, passes⟩ := passes_skipBlanksFrom false c.loc c.rest
  have hnext : skipBlanksFrom false c.loc c.rest = ⟨loc, b :: r⟩ := next
  rw [hnext] at space passes
  exact ⟨ws, by simpa using space, passes⟩

theorem ReadsString.escapes {loc : Location} {s text : Bytes} {c' : Cursor}
    (reads : ReadsString loc s text c') :
    ∃ raw, Escapes raw text ∧ (⟨loc, s⟩ : Cursor).Passes (raw ++ [byte '"']) c' := by
  obtain ⟨h, hread⟩ := reads
  fun_induction readString loc s generalizing text c' with
  | case1 | case3 | case5 | case7 | case8 => cases hread
  | case2 | case4 =>
    cases hread
    exact ⟨[], .none, .byte _ _ _⟩
  | case6 loc e r escapable _ _ _ _ hothers ih =>
    cases hread
    obtain ⟨raw, contents, passes⟩ := ih _ hothers
    exact ⟨byte '\\' :: e :: raw, .escaped escapable contents,
      (Cursor.Passes.byte loc (byte '\\') (e :: r)).trans
        ((Cursor.Passes.byte _ e r).trans passes)⟩
  | case9 loc b e r noQuote noEscape _ _ _ hothers ih =>
    cases hread
    obtain ⟨raw, contents, passes⟩ := ih _ hothers
    exact ⟨b :: raw, .plain noQuote noEscape contents,
      (Cursor.Passes.byte loc b (e :: r)).trans passes⟩

theorem passes_takeRun (p : UInt8 → Bool) (loc : Location) (s : Bytes) :
    (⟨loc, s⟩ : Cursor).Passes (takeRun p loc s).1 (takeRun p loc s).2 :=
  ⟨List.takeWhile_append_dropWhile.symm, rfl⟩

theorem takeRun_inside (p : UInt8 → Bool) (loc : Location) (s : Bytes) :
    ∀ b ∈ (takeRun p loc s).1, p b = true :=
  List.all_eq_true.mp List.all_takeWhile

theorem takeRun_maximal (p : UInt8 → Bool) (loc : Location) (s : Bytes) :
    ∀ b ∈ (takeRun p loc s).2.rest.head?, p b = false := by
  intro b hb
  have hnot := List.head?_dropWhile_not p s
  rw [show (s.dropWhile p).head? = some b from hb] at hnot
  exact hnot

/-- The digits behind a byte that starts an integer make a numeral with it. -/
theorem isNumeral_takeRun {b : UInt8} {r : Bytes} (starts : startsInteger b r = true)
    (loc : Location) : IsNumeral (b :: (takeRun Bytes.isDigit loc r).1) := by
  refine isIntegerText_iff.mp ?_
  have hdigits : (takeRun Bytes.isDigit loc r).1.all Bytes.isDigit = true := List.all_takeWhile
  cases r with
  | nil => simpa [isIntegerText, takeRun] using starts
  | cons d r =>
    by_cases hd : Bytes.isDigit d = true
    · simp only [isIntegerText, hdigits, Bool.and_true]
      simpa [takeRun, hd, startsInteger] using starts
    · simp [isIntegerText, startsInteger, takeRun, hd] at starts ⊢
      exact starts

/-- The bytes of symbols behind a byte that starts a symbol make a name with it. -/
theorem isName_takeRun {b : UInt8} {r : Bytes} (starts : isSymbolStart b = true)
    (noInteger : startsInteger b r = false) (loc : Location) :
    IsName (b :: (takeRun isSymbolByte loc r).1) := by
  refine isSymbolText_iff.mp ?_
  have hinside : (takeRun isSymbolByte loc r).1.all isSymbolByte = true := List.all_takeWhile
  have hsign : startsInteger b (takeRun isSymbolByte loc r).1 = false := by
    have hrest : Delimited (takeRun isSymbolByte loc r).2.rest := takeRun_maximal _ _ _
    rw [← startsInteger_append hrest, ← (passes_takeRun isSymbolByte loc r).rest]
    exact noInteger
  simp [isSymbolText, starts, hsign, hinside]

mutual

/-- What is read is white space and a text that spells the datum. -/
theorem Reads.spells {c c' : Cursor} {d : Datum} (reads : Reads c d c') :
    ∃ ws text, Spacing false ws ∧ c.Passes (ws ++ text) c' ∧
      Spells (c.loc.skip ws) text c'.rest d := by
  cases reads.cases with
  | list next contents =>
    obtain ⟨ws, space, open_⟩ := passes_of_skipBlanks next
    have hr := Cursor.length_lt_of_skipBlanks next
    obtain ⟨body, passes, spelled⟩ := contents.spells
    obtain rfl := open_.loc
    exact ⟨ws, _, space, open_.trans ((Cursor.Passes.byte _ _ _).trans passes), .list spelled⟩
  | map next entries =>
    obtain ⟨ws, space, open_⟩ := passes_of_skipBlanks next
    have hr := Cursor.length_lt_of_skipBlanks next
    obtain ⟨body, passes, spelled⟩ := entries.spells
    obtain rfl := open_.loc
    exact ⟨ws, _, space, open_.trans ((Cursor.Passes.byte _ _ _).trans passes), .map spelled⟩
  | string next contents =>
    obtain ⟨ws, space, quote⟩ := passes_of_skipBlanks next
    obtain ⟨raw, escapes, passes⟩ := contents.escapes
    obtain rfl := quote.loc
    exact ⟨ws, _, space, quote.trans ((Cursor.Passes.byte _ _ _).trans passes), .string escapes⟩
  | integer next starts =>
    obtain ⟨ws, space, first⟩ := passes_of_skipBlanks next
    obtain rfl := first.loc
    exact ⟨ws, _, space, first.trans ((Cursor.Passes.byte _ _ _).trans (passes_takeRun _ _ _)),
      .integer (isNumeral_takeRun starts _) (takeRun_maximal _ _ _)⟩
  | symbol next starts noInteger =>
    obtain ⟨ws, space, first⟩ := passes_of_skipBlanks next
    obtain rfl := first.loc
    exact ⟨ws, _, space, first.trans ((Cursor.Passes.byte _ _ _).trans (passes_takeRun _ _ _)),
      .symbol (isName_takeRun starts noInteger _) (takeRun_maximal _ _ _)⟩
termination_by (c.rest.length, 0)

/-- What is read spells the contents of a list. -/
theorem ReadsElements.spells {c c' : Cursor} {es : List Element}
    (reads : ReadsElements c es c') :
    ∃ text, c.Passes text c' ∧ SpellsElements c.loc text c'.rest es := by
  cases reads.cases with
  | nil next =>
    obtain ⟨ws, space, close⟩ := passes_of_skipBlanks next
    exact ⟨_, close.trans (Cursor.Passes.byte _ _ _), .close space⟩
  | item first others =>
    have ⟨hlater, _⟩ := first
    obtain ⟨ws, text, space, passes, spelled⟩ := first.spells
    obtain ⟨more, passes', spelled'⟩ := others.spells
    rw [passes'.rest] at spelled
    rw [passes.loc, Location.skip_append] at spelled'
    exact ⟨_, passes.trans passes', .item space spelled spelled'⟩
  | @note _ r _ _ _ c₁ _ next entries others =>
    have hr : r.length < c.rest.length :=
      Nat.lt_of_succ_lt (Cursor.length_lt_of_skipBlanks next)
    have ⟨h₁, _⟩ := entries
    have hlater : c₁.rest.length < c.rest.length := Nat.lt_trans h₁ hr
    obtain ⟨ws, space, mark⟩ := passes_of_skipBlanks next
    obtain ⟨text, passes, spelled⟩ := entries.spells
    obtain ⟨more, passes', spelled'⟩ := others.spells
    obtain rfl := mark.loc
    rw [passes'.rest] at spelled
    rw [passes.loc] at spelled'
    have contents := SpellsElements.note space spelled spelled'
    exact ⟨_, mark.trans ((Cursor.Passes.byte _ _ _).trans ((Cursor.Passes.byte _ _ _).trans
      (passes.trans passes'))), contents⟩
termination_by (c.rest.length, 1)

/-- What is read spells the entries of a map. -/
theorem ReadsEntries.spells {c c' : Cursor} {keys : List Bytes} {values : List Datum}
    (reads : ReadsEntries c keys values c') :
    ∃ text, c.Passes text c' ∧ SpellsEntries c.loc text c'.rest keys values := by
  cases reads.cases with
  | nil next =>
    obtain ⟨ws, space, close⟩ := passes_of_skipBlanks next
    exact ⟨_, close.trans (Cursor.Passes.byte _ _ _), .close space⟩
  | last first brace =>
    obtain ⟨ws, space, close⟩ := passes_of_skipBlanks brace
    obtain ⟨text, passes, spelled⟩ := first.spells
    rw [close.rest] at spelled
    exact ⟨_, (passes.trans close).trans (Cursor.Passes.byte _ _ _), .last spelled space⟩
  | @cons _ _ c₁ loc r _ _ _ first comma others =>
    have hlater : r.length < c.rest.length :=
      Nat.lt_trans (Cursor.length_lt_of_skipBlanks comma) first.length_lt
    obtain ⟨ws, space, mark⟩ := passes_of_skipBlanks comma
    obtain ⟨text, passes, spelled⟩ := first.spells
    obtain ⟨more, passes', spelled'⟩ := others.spells
    obtain rfl := mark.loc
    have hr : r = more ++ c'.rest := passes'.rest
    rw [mark.rest, hr] at spelled
    rw [passes.loc] at spelled'
    exact ⟨_, (passes.trans mark).trans ((Cursor.Passes.byte _ _ _).trans passes'),
      .cons spelled space spelled'⟩
termination_by (c.rest.length, 1)

/-- What is read spells an entry. -/
theorem ReadsEntry.spells {c c' : Cursor} {key : Bytes} {value : Datum}
    (reads : ReadsEntry c key value c') :
    ∃ text, c.Passes text c' ∧ SpellsEntry c.loc text c'.rest key value := by
  cases reads with
  | @intro loc b r loc₁ r₁ _ _ next starts colon spelled =>
    have hr : (takeRun isSymbolByte (loc.next b) r).2.rest.length < c.rest.length :=
      Nat.lt_of_le_of_lt (takeRun_length_le _ _ _) (Cursor.length_lt_of_skipBlanks next)
    have hlater : r₁.length < c.rest.length :=
      Nat.lt_trans (Cursor.length_lt_of_skipBlanks colon) hr
    obtain ⟨ws₁, space₁, first⟩ := passes_of_skipBlanks next
    obtain ⟨ws₂, space₂, mark⟩ := passes_of_skipBlanks colon
    obtain ⟨ws₃, text, space₃, passes, spelled⟩ := spelled.spells
    have hkey := (Cursor.Passes.byte loc b r).trans (passes_takeRun isSymbolByte (loc.next b) r)
    have isKey : IsKey (b :: (takeRun isSymbolByte (loc.next b) r).1) :=
      ⟨b, _, rfl, starts, takeRun_inside _ _ _⟩
    obtain rfl := mark.loc
    rw [hkey.loc, first.loc] at spelled
    have entry := SpellsEntry.intro space₁ isKey space₂ space₃ spelled
    exact ⟨_, ((first.trans hkey).trans mark).trans ((Cursor.Passes.byte _ _ _).trans passes),
      entry⟩
termination_by (c.rest.length, 0)

end

/-! ## Whole texts -/

theorem read_of_derives {s : Bytes} {d : Datum} (derived : Derives s d) : read s = .ok d := by
  obtain ⟨ws, text, end_, rfl, space, spaceEnd, spelled⟩ := derived
  have hread := spelled.reads (spelled.skipBlanks space)
  rw [← List.append_assoc] at hread
  exact read_of_reads hread (spaceEnd.skipBlanks_atEnd _)

theorem derives_of_read {s : Bytes} {d : Datum} (hread : read s = .ok d) : Derives s d := by
  obtain ⟨c', datum, nothing⟩ := reads_of_read hread
  obtain ⟨ws, text, space, passes, spelled⟩ := datum.spells
  obtain ⟨end_, spaceEnd, passesEnd⟩ := passes_skipBlanksFrom false c'.loc c'.rest
  have hend : (skipBlanksFrom false c'.loc c'.rest).rest = [] := nothing
  have hc' : c'.rest = end_ := by simpa [hend] using passesEnd.rest
  rw [hend, ← hc'] at spaceEnd
  exact ⟨ws, text, c'.rest, passes.rest, space, spaceEnd, spelled⟩

/-- The reader accepts exactly the grammar: it gives a datum exactly if the grammar derives
the datum from the text.  The grammar derives one datum from a text, or none, and then the
text is refused with an error. -/
theorem read_ok_iff_derives (s : Bytes) :
    (∀ d, read s = .ok d ↔ Derives s d) ∧
      ((∃ d, ∀ d', Derives s d' ↔ d' = d) ∨ (∀ d, ¬Derives s d) ∧ ∃ e, read s = .error e) := by
  have hiff : ∀ d, read s = .ok d ↔ Derives s d := fun d => ⟨derives_of_read, read_of_derives⟩
  refine ⟨hiff, ?_⟩
  cases hread : read s with
  | ok d =>
    refine .inl ⟨d, fun d' => ?_⟩
    rw [← hiff, hread]
    simp [eq_comm]
  | error e =>
    refine .inr ⟨fun d derived => ?_, e, rfl⟩
    rw [read_of_derives derived] at hread
    cases hread

end Datum

end TreeWat
