import TreeWat.Datum.Reader
set_option autoImplicit false

/-!
# Data: one rule for each thing the reader accepts

A reading step returns the input that is left with a proof that it is shorter.  The three
relations of this module leave that proof out, and each production of the notation has a
lemma that leads from what stands next and from the readings of the parts to the reading
of the whole, so that nothing else has to open the reader.
-/

namespace TreeWat.Datum

/-! ## Blanks -/

theorem skipBlanks_blank {loc : Location} {b : UInt8} {r : Bytes} (blank : isBlank b = true) :
    (⟨loc, b :: r⟩ : Cursor).skipBlanks = (⟨loc.next b, r⟩ : Cursor).skipBlanks := by
  have hcomment : b ≠ byte ';' := by
    rintro rfl
    exact absurd blank (by decide)
  simp [Cursor.skipBlanks, skipBlanksFrom, hcomment, blank]

theorem skipBlanks_visible {loc : Location} {b : UInt8} {r : Bytes} (visible : isBlank b = false)
    (noComment : b ≠ byte ';') :
    (⟨loc, b :: r⟩ : Cursor).skipBlanks = ⟨loc, b :: r⟩ := by
  simp [Cursor.skipBlanks, skipBlanksFrom, noComment, visible]

/-! ## Readings -/

/-- A datum is read between the two cursors. -/
def Reads (c : Cursor) (d : Datum) (c' : Cursor) : Prop :=
  ∃ h, readDatum c = .ok (d, ⟨c', h⟩)

/-- The contents of a list are read between the two cursors, the closing bracket included. -/
def ReadsElements (c : Cursor) (es : List Element) (c' : Cursor) : Prop :=
  ∃ h, readElements c = .ok (es, ⟨c', h⟩)

/-- The entries of a map are read between the two cursors, the closing brace included. -/
def ReadsEntries (c : Cursor) (keys : List Bytes) (values : List Datum) (c' : Cursor) : Prop :=
  ∃ h, readEntries c = .ok (keys, values, ⟨c', h⟩)

/-- The rest of a string is read up to the cursor. -/
def ReadsString (loc : Location) (s text : Bytes) (c' : Cursor) : Prop :=
  ∃ h, readString loc s = .ok (text, ⟨c', h⟩)

/-- One datum is read at a place, up to one cursor. -/
theorem Reads.unique {c c₁ c₂ : Cursor} {d₁ d₂ : Datum} (reads₁ : Reads c d₁ c₁)
    (reads₂ : Reads c d₂ c₂) : d₁ = d₂ ∧ c₁ = c₂ := by
  obtain ⟨h₁, hread₁⟩ := reads₁
  obtain ⟨h₂, hread₂⟩ := reads₂
  cases hread₁.symm.trans hread₂
  exact ⟨rfl, rfl⟩

section Rules

variable {c c' : Cursor} {loc : Location} {b : UInt8} {r : Bytes}

/-! ## Strings -/

theorem ReadsString.close (loc : Location) (r : Bytes) :
    ReadsString loc (byte '"' :: r) [] ⟨loc.next (byte '"'), r⟩ := by
  cases r with
  | nil => exact ⟨by simp, by simp [readString]⟩
  | cons e r => exact ⟨by simp, by simp [readString]⟩

theorem ReadsString.escape {e : UInt8} {text : Bytes} (escapable : e = byte '"' ∨ e = byte '\\')
    (others : ReadsString ((loc.next (byte '\\')).next e) r text c') :
    ReadsString loc (byte '\\' :: e :: r) (e :: text) c' := by
  obtain ⟨h, hothers⟩ := others
  refine ⟨by simp; omega, ?_⟩
  simp +decide [readString, escapable, hothers]

theorem ReadsString.plain {text : Bytes} (noQuote : b ≠ byte '"') (noEscape : b ≠ byte '\\')
    (others : ReadsString (loc.next b) r text c') :
    ReadsString loc (b :: r) (b :: text) c' := by
  obtain ⟨h, hothers⟩ := others
  cases r with
  | nil => cases h
  | cons e r =>
    refine ⟨by simp at h ⊢; omega, ?_⟩
    simp [readString, noQuote, noEscape, hothers]

/-! ## Data -/

theorem Reads.list {es : List Element} (next : c.skipBlanks = ⟨loc, byte '(' :: r⟩)
    (contents : ReadsElements ⟨loc.next (byte '('), r⟩ es c') :
    Reads c (ofElements loc es) c' := by
  obtain ⟨h, hread⟩ := contents
  refine ⟨Nat.lt_trans h (Cursor.length_lt_of_skipBlanks next), ?_⟩
  rw [readDatum]
  split <;> rename_i hs <;> rw [next] at hs <;> cases hs
  simp [hread]

theorem Reads.map {keys : List Bytes} {values : List Datum}
    (next : c.skipBlanks = ⟨loc, byte '\x7b' :: r⟩)
    (entries : ReadsEntries ⟨loc.next (byte '\x7b'), r⟩ keys values c') :
    Reads c (.map loc keys values) c' := by
  obtain ⟨h, hread⟩ := entries
  refine ⟨Nat.lt_trans h (Cursor.length_lt_of_skipBlanks next), ?_⟩
  rw [readDatum]
  split <;> rename_i hs <;> rw [next] at hs <;> cases hs
  simp +decide [hread]

theorem Reads.string {text : Bytes} (next : c.skipBlanks = ⟨loc, byte '"' :: r⟩)
    (contents : ReadsString (loc.next (byte '"')) r text c') :
    Reads c (.atom .string loc text) c' := by
  obtain ⟨h, hread⟩ := contents
  refine ⟨Nat.lt_trans h (Cursor.length_lt_of_skipBlanks next), ?_⟩
  rw [readDatum]
  split <;> rename_i hs <;> rw [next] at hs <;> cases hs
  simp +decide [hread]

/-- A byte that starts an integer opens nothing. -/
theorem startsInteger_ne {x : UInt8} (starts : startsInteger b r = true)
    (other : Bytes.isDigit x = false ∧ x ≠ byte '+' ∧ x ≠ byte '-') : b ≠ x := by
  rintro rfl
  simp [startsInteger, other] at starts

theorem Reads.integer (next : c.skipBlanks = ⟨loc, b :: r⟩) (starts : startsInteger b r = true) :
    Reads c (.atom .integer loc (b :: (takeRun Bytes.isDigit (loc.next b) r).1))
      (takeRun Bytes.isDigit (loc.next b) r).2 := by
  refine ⟨Nat.lt_of_le_of_lt (takeRun_length_le _ _ _) (Cursor.length_lt_of_skipBlanks next), ?_⟩
  rw [readDatum]
  split <;> rename_i hs <;> rw [next] at hs <;> cases hs
  rw [if_neg (startsInteger_ne starts (by decide)), if_neg (startsInteger_ne starts (by decide)),
    if_neg (startsInteger_ne starts (by decide)), if_pos starts]

theorem Reads.symbol (next : c.skipBlanks = ⟨loc, b :: r⟩) (starts : isSymbolStart b = true)
    (noInteger : startsInteger b r = false) :
    Reads c (.atom .symbol loc (b :: (takeRun isSymbolByte (loc.next b) r).1))
      (takeRun isSymbolByte (loc.next b) r).2 := by
  have hopens : b ≠ byte '(' ∧ b ≠ byte '\x7b' ∧ b ≠ byte '"' := by
    refine ⟨?_, ?_, ?_⟩
    · rintro rfl
      exact absurd starts (by decide)
    · rintro rfl
      exact absurd starts (by decide)
    · rintro rfl
      exact absurd starts (by decide)
  refine ⟨Nat.lt_of_le_of_lt (takeRun_length_le _ _ _) (Cursor.length_lt_of_skipBlanks next), ?_⟩
  rw [readDatum]
  split <;> rename_i hs <;> rw [next] at hs <;> cases hs
  simp [hopens, starts, noInteger]

/-! ## Lists -/

theorem ReadsElements.nil (next : c.skipBlanks = ⟨loc, byte ')' :: r⟩) :
    ReadsElements c [] ⟨loc.next (byte ')'), r⟩ := by
  refine ⟨Cursor.length_lt_of_skipBlanks next, ?_⟩
  rw [readElements]
  split <;> rename_i hs <;> rw [next] at hs <;> cases hs
  simp

theorem ReadsElements.item {d : Datum} {es : List Element} {c₁ : Cursor}
    (next : c.skipBlanks = ⟨loc, b :: r⟩) (noEnd : b ≠ byte ')') (noNote : b ≠ byte '^')
    (first : Reads c d c₁) (others : ReadsElements c₁ es c') :
    ReadsElements c (.item d :: es) c' := by
  obtain ⟨h₁, hfirst⟩ := first
  obtain ⟨h₂, hothers⟩ := others
  refine ⟨Nat.lt_trans h₂ h₁, ?_⟩
  rw [readElements]
  split <;> rename_i hs <;> rw [next] at hs <;> cases hs
  simp [noEnd, noNote, hfirst, hothers]

theorem ReadsElements.note {keys : List Bytes} {values : List Datum} {es : List Element}
    {c₁ : Cursor} (next : c.skipBlanks = ⟨loc, byte '^' :: byte '\x7b' :: r⟩)
    (entries : ReadsEntries ⟨(loc.next (byte '^')).next (byte '\x7b'), r⟩ keys values c₁)
    (others : ReadsElements c₁ es c') : ReadsElements c (.note keys values :: es) c' := by
  obtain ⟨h₁, hentries⟩ := entries
  obtain ⟨h₂, hothers⟩ := others
  have hr : r.length < c.rest.length := Nat.lt_of_succ_lt (Cursor.length_lt_of_skipBlanks next)
  refine ⟨Nat.lt_trans h₂ (Nat.lt_trans h₁ hr), ?_⟩
  rw [readElements]
  split <;> rename_i hs <;> rw [next] at hs <;> cases hs
  simp +decide [hentries, hothers]

/-! ## Maps -/

theorem ReadsEntries.nil (next : c.skipBlanks = ⟨loc, byte '\x7d' :: r⟩) :
    ReadsEntries c [] [] ⟨loc.next (byte '\x7d'), r⟩ := by
  refine ⟨Cursor.length_lt_of_skipBlanks next, ?_⟩
  rw [readEntries]
  split <;> rename_i hs <;> rw [next] at hs <;> cases hs
  simp

section Entry

variable {loc₁ loc₂ : Location} {r₁ r₂ : Bytes} {value : Datum} {c₂ : Cursor}

/-- A byte that starts a key is no closing brace. -/
theorem isWordStart_ne (starts : isWordStart b = true) : b ≠ byte '\x7d' := by
  rintro rfl
  exact absurd starts (by decide)

/-- The last entry, without a comma behind it. -/
theorem ReadsEntries.last (next : c.skipBlanks = ⟨loc, b :: r⟩) (starts : isWordStart b = true)
    (colon : (takeRun isSymbolByte (loc.next b) r).2.skipBlanks = ⟨loc₁, byte ':' :: r₁⟩)
    (first : Reads ⟨loc₁.next (byte ':'), r₁⟩ value c₂)
    (brace : c₂.skipBlanks = ⟨loc₂, byte '\x7d' :: r₂⟩) :
    ReadsEntries c [b :: (takeRun isSymbolByte (loc.next b) r).1] [value]
      ⟨loc₂.next (byte '\x7d'), r₂⟩ := by
  obtain ⟨h₂, hfirst⟩ := first
  have hkey := takeRun_length_le isSymbolByte (loc.next b) r
  have hr := Cursor.length_lt_of_skipBlanks next
  have hr₁ := Cursor.length_lt_of_skipBlanks colon
  have hr₂ := Cursor.length_lt_of_skipBlanks brace
  refine ⟨by simp only at h₂ ⊢; omega, ?_⟩
  rw [readEntries]
  split <;> rename_i hs <;> rw [next] at hs <;> cases hs
  simp only [isWordStart_ne starts, if_false, starts, if_true]
  split <;> rename_i hs₁ <;> rw [colon] at hs₁ <;> cases hs₁
  simp only [if_true, hfirst]
  split <;> rename_i hs₂ <;> rw [brace] at hs₂ <;> cases hs₂
  simp +decide

/-- An entry with a comma and further entries behind it. -/
theorem ReadsEntries.cons {keys : List Bytes} {values : List Datum}
    (next : c.skipBlanks = ⟨loc, b :: r⟩) (starts : isWordStart b = true)
    (colon : (takeRun isSymbolByte (loc.next b) r).2.skipBlanks = ⟨loc₁, byte ':' :: r₁⟩)
    (first : Reads ⟨loc₁.next (byte ':'), r₁⟩ value c₂)
    (comma : c₂.skipBlanks = ⟨loc₂, byte ',' :: r₂⟩)
    (others : ReadsEntries ⟨loc₂.next (byte ','), r₂⟩ keys values c') :
    ReadsEntries c ((b :: (takeRun isSymbolByte (loc.next b) r).1) :: keys) (value :: values)
      c' := by
  obtain ⟨h₂, hfirst⟩ := first
  obtain ⟨h₃, hothers⟩ := others
  have hkey := takeRun_length_le isSymbolByte (loc.next b) r
  have hr := Cursor.length_lt_of_skipBlanks next
  have hr₁ := Cursor.length_lt_of_skipBlanks colon
  have hr₂ := Cursor.length_lt_of_skipBlanks comma
  refine ⟨by simp only at h₂ h₃ ⊢; omega, ?_⟩
  rw [readEntries]
  split <;> rename_i hs <;> rw [next] at hs <;> cases hs
  simp only [isWordStart_ne starts, if_false, starts, if_true]
  split <;> rename_i hs₁ <;> rw [colon] at hs₁ <;> cases hs₁
  simp only [if_true, hfirst]
  split <;> rename_i hs₂ <;> rw [comma] at hs₂ <;> cases hs₂
  simp [hothers]

end Entry

end Rules

/-! ## Nothing else is read

The same productions the other way round: one list for each reading relation, whose
constructors have the names and the premises of the rules above. -/

/-- How a datum is read. -/
inductive DatumRead (c : Cursor) : Datum → Cursor → Prop where
  | list {loc r es c'} (next : c.skipBlanks = ⟨loc, byte '(' :: r⟩)
      (contents : ReadsElements ⟨loc.next (byte '('), r⟩ es c') :
      DatumRead c (ofElements loc es) c'
  | map {loc r keys values c'} (next : c.skipBlanks = ⟨loc, byte '\x7b' :: r⟩)
      (entries : ReadsEntries ⟨loc.next (byte '\x7b'), r⟩ keys values c') :
      DatumRead c (.map loc keys values) c'
  | string {loc r text c'} (next : c.skipBlanks = ⟨loc, byte '"' :: r⟩)
      (contents : ReadsString (loc.next (byte '"')) r text c') :
      DatumRead c (.atom .string loc text) c'
  | integer {loc b r} (next : c.skipBlanks = ⟨loc, b :: r⟩) (starts : startsInteger b r = true) :
      DatumRead c (.atom .integer loc (b :: (takeRun Bytes.isDigit (loc.next b) r).1))
        (takeRun Bytes.isDigit (loc.next b) r).2
  | symbol {loc b r} (next : c.skipBlanks = ⟨loc, b :: r⟩) (starts : isSymbolStart b = true)
      (noInteger : startsInteger b r = false) :
      DatumRead c (.atom .symbol loc (b :: (takeRun isSymbolByte (loc.next b) r).1))
        (takeRun isSymbolByte (loc.next b) r).2

theorem Reads.cases {c c' : Cursor} {d : Datum} (reads : Reads c d c') : DatumRead c d c' := by
  obtain ⟨h, hread⟩ := reads
  rw [readDatum] at hread
  split at hread
  · cases hread
  · rename_i loc b r next
    dsimp only at hread
    split at hread
    · rename_i isOpen
      subst isOpen
      split at hread
      · cases hread
      · rename_i hcontents
        cases hread
        exact .list next ⟨_, hcontents⟩
    · split at hread
      · rename_i isOpen
        subst isOpen
        split at hread
        · cases hread
        · rename_i hentries
          cases hread
          exact .map next ⟨_, hentries⟩
      · split at hread
        · rename_i isQuote
          subst isQuote
          split at hread
          · cases hread
          · rename_i hstring
            cases hread
            exact .string next ⟨_, hstring⟩
        · split at hread
          · rename_i starts
            cases hread
            exact .integer next starts
          · rename_i noInteger
            split at hread
            · rename_i starts
              cases hread
              exact .symbol next starts (by simpa using noInteger)
            · split at hread <;> cases hread

/-- What an opening bracket starts is a list. -/
theorem Reads.list_of_open {c c' : Cursor} {d : Datum} {loc : Location} {r : Bytes}
    (reads : Reads c d c') (opens : c.skipBlanks = ⟨loc, byte '(' :: r⟩) :
    ∃ es, ReadsElements ⟨loc.next (byte '('), r⟩ es c' ∧ d = ofElements loc es := by
  cases reads.cases with
  | list next contents =>
    cases opens.symm.trans next
    exact ⟨_, contents, rfl⟩
  | map next _ => cases opens.symm.trans next
  | string next _ => cases opens.symm.trans next
  | integer next starts =>
    cases opens.symm.trans next
    cases starts
  | symbol next starts _ =>
    cases opens.symm.trans next
    cases starts

/-- How the contents of a list are read. -/
inductive ElementsRead (c : Cursor) : List Element → Cursor → Prop where
  | nil {loc r} (next : c.skipBlanks = ⟨loc, byte ')' :: r⟩) :
      ElementsRead c [] ⟨loc.next (byte ')'), r⟩
  | item {d es c₁ c'} (first : Reads c d c₁) (others : ReadsElements c₁ es c') :
      ElementsRead c (.item d :: es) c'
  | note {loc r keys values es c₁ c'}
      (next : c.skipBlanks = ⟨loc, byte '^' :: byte '\x7b' :: r⟩)
      (entries : ReadsEntries ⟨(loc.next (byte '^')).next (byte '\x7b'), r⟩ keys values c₁)
      (others : ReadsElements c₁ es c') : ElementsRead c (.note keys values :: es) c'

theorem ReadsElements.cases {c c' : Cursor} {es : List Element}
    (reads : ReadsElements c es c') : ElementsRead c es c' := by
  obtain ⟨h, hread⟩ := reads
  rw [readElements] at hread
  split at hread
  · cases hread
  · rename_i loc b r next
    dsimp only at hread
    split at hread
    · rename_i isEnd
      subst isEnd
      cases hread
      exact .nil next
    · split at hread
      · rename_i isMark
        subst isMark
        split at hread
        · cases hread
        · split at hread
          · rename_i isOpen
            subst isOpen
            split at hread
            · cases hread
            · rename_i hentries
              split at hread
              · cases hread
              · rename_i hothers
                cases hread
                exact .note next ⟨_, hentries⟩ ⟨_, hothers⟩
          · cases hread
      · split at hread
        · cases hread
        · rename_i hfirst
          split at hread
          · cases hread
          · rename_i hothers
            cases hread
            exact .item ⟨_, hfirst⟩ ⟨_, hothers⟩

/-- How a key, its colon and its value are read. -/
inductive ReadsEntry (c : Cursor) : Bytes → Datum → Cursor → Prop where
  | intro {loc b r loc₁ r₁ value c'} (next : c.skipBlanks = ⟨loc, b :: r⟩)
      (starts : isWordStart b = true)
      (colon : (takeRun isSymbolByte (loc.next b) r).2.skipBlanks = ⟨loc₁, byte ':' :: r₁⟩)
      (spelled : Reads ⟨loc₁.next (byte ':'), r₁⟩ value c') :
      ReadsEntry c (b :: (takeRun isSymbolByte (loc.next b) r).1) value c'

section Entry

variable {c c₁ c' : Cursor} {key : Bytes} {value : Datum} {loc : Location} {r : Bytes}

theorem ReadsEntry.length_lt (reads : ReadsEntry c key value c') :
    c'.rest.length < c.rest.length := by
  obtain ⟨next, _, colon, h, _⟩ := reads
  have hr := Cursor.length_lt_of_skipBlanks next
  have hrun := takeRun_length_le isSymbolByte
  have hr₁ := Cursor.length_lt_of_skipBlanks colon
  exact Nat.lt_trans h (Nat.lt_trans (Nat.lt_of_lt_of_le hr₁ (hrun _ _)) hr)

theorem ReadsEntry.last (first : ReadsEntry c key value c₁)
    (brace : c₁.skipBlanks = ⟨loc, byte '\x7d' :: r⟩) :
    ReadsEntries c [key] [value] ⟨loc.next (byte '\x7d'), r⟩ := by
  obtain ⟨next, starts, colon, spelled⟩ := first
  exact .last next starts colon spelled brace

theorem ReadsEntry.cons {keys : List Bytes} {values : List Datum}
    (first : ReadsEntry c key value c₁) (comma : c₁.skipBlanks = ⟨loc, byte ',' :: r⟩)
    (others : ReadsEntries ⟨loc.next (byte ','), r⟩ keys values c') :
    ReadsEntries c (key :: keys) (value :: values) c' := by
  obtain ⟨next, starts, colon, spelled⟩ := first
  exact .cons next starts colon spelled comma others

end Entry

/-- How the entries of a map are read. -/
inductive EntriesRead (c : Cursor) : List Bytes → List Datum → Cursor → Prop where
  | nil {loc r} (next : c.skipBlanks = ⟨loc, byte '\x7d' :: r⟩) :
      EntriesRead c [] [] ⟨loc.next (byte '\x7d'), r⟩
  | last {key value c₁ loc r} (first : ReadsEntry c key value c₁)
      (brace : c₁.skipBlanks = ⟨loc, byte '\x7d' :: r⟩) :
      EntriesRead c [key] [value] ⟨loc.next (byte '\x7d'), r⟩
  | cons {key value c₁ loc r keys values c'} (first : ReadsEntry c key value c₁)
      (comma : c₁.skipBlanks = ⟨loc, byte ',' :: r⟩)
      (others : ReadsEntries ⟨loc.next (byte ','), r⟩ keys values c') :
      EntriesRead c (key :: keys) (value :: values) c'

theorem ReadsEntries.cases {c c' : Cursor} {keys : List Bytes} {values : List Datum}
    (reads : ReadsEntries c keys values c') : EntriesRead c keys values c' := by
  obtain ⟨h, hread⟩ := reads
  rw [readEntries] at hread
  split at hread
  · cases hread
  · rename_i loc b r next
    dsimp only at hread
    split at hread
    · rename_i isEnd
      subst isEnd
      cases hread
      exact .nil next
    · split at hread
      · rename_i starts
        split at hread
        · cases hread
        · rename_i colon
          split at hread
          · rename_i isColon
            subst isColon
            split at hread
            · cases hread
            · rename_i hfirst
              split at hread
              · cases hread
              · rename_i behind
                split at hread
                · rename_i isComma
                  subst isComma
                  split at hread
                  · cases hread
                  · rename_i hothers
                    cases hread
                    exact .cons (.intro next starts colon ⟨_, hfirst⟩) behind ⟨_, hothers⟩
                · split at hread
                  · rename_i isEnd
                    subst isEnd
                    cases hread
                    exact .last (.intro next starts colon ⟨_, hfirst⟩) behind
                  · cases hread
          · cases hread
      · cases hread

/-! ## Whole texts -/

/-- A text is one datum if nothing but blanks stands behind it. -/
theorem read_of_reads {s : Bytes} {d : Datum} {c' : Cursor} (datum : Reads ⟨.start, s⟩ d c')
    (nothing : c'.skipBlanks.rest = []) : read s = .ok d := by
  obtain ⟨h, hread⟩ := datum
  unfold read
  simp only [hread]
  split
  · rfl
  · rename_i hs
    rw [hs] at nothing
    cases nothing

theorem reads_of_read {s : Bytes} {d : Datum} (hread : read s = .ok d) :
    ∃ c', Reads ⟨.start, s⟩ d c' ∧ c'.skipBlanks.rest = [] := by
  unfold read at hread
  split at hread
  · cases hread
  · rename_i c' h hdatum
    split at hread
    · rename_i nothing
      cases hread
      exact ⟨c', ⟨h, hdatum⟩, by rw [nothing]⟩
    · cases hread

end TreeWat.Datum
