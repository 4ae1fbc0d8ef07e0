import TreeWat.Datum.Basic
import TreeWat.Text.Utf8
set_option autoImplicit false

/-!
# Datum: reading

A recursive-descent reader that works on the bytes themselves.  Data need no
separator between them where their spellings end by themselves; blanks and
comments from `;` to the end of the line may stand anywhere between tokens; bytes
outside ASCII occur only inside strings and comments.

Each reading step returns the input that is left together with a proof that it is
shorter, and that is the whole termination argument: no step counts fuel, and no
step can stand still.
-/

namespace TreeWat.Datum

/-! ## Errors -/

/-- What stands next in the input. -/
inductive Found where
  | endOfInput
  | byte (b : UInt8)
  deriving DecidableEq, Repr

/-- Why a text is no datum. -/
inductive ReadCause where
  /-- More input after the datum. -/
  | trailing (found : Found)
  /-- No datum before the end of input. -/
  | missing
  /-- A closing or separating mark where a datum should start. -/
  | misplaced (b : UInt8)
  /-- A byte that starts no datum. -/
  | strange (b : UInt8)
  /-- The input ends inside a list. -/
  | openList
  /-- `^` without a map right behind it. -/
  | bareMark (found : Found)
  /-- Something other than a symbol in the place of a key. -/
  | badKey (found : Found)
  /-- A key without its colon. -/
  | noColon (found : Found)
  /-- An entry followed by neither a comma nor the closing brace. -/
  | noComma (found : Found)
  /-- The input ends inside a string. -/
  | openString
  /-- A backslash in front of anything but a quote or a backslash. -/
  | badEscape (b : UInt8)
  deriving DecidableEq, Repr

/-- A reading error: the line reached and the cause. -/
structure ReadError where
  line : Int
  cause : ReadCause
  deriving DecidableEq, Repr

/-- The name of what stands next. -/
def Found.text : Found → Bytes
  | .endOfInput => utf8 "end of input"
  | .byte b => utf8 "'" ++ Utf8.ofByte b ++ utf8 "'"

/-- The wording of a cause. -/
def ReadCause.text : ReadCause → Bytes
  | .trailing f => utf8 "expected end of input, found " ++ f.text
  | .missing => utf8 "unexpected end of input"
  | .misplaced b => utf8 "unexpected '" ++ Utf8.ofByte b ++ utf8 "'"
  | .strange b => utf8 "unexpected character '" ++ Utf8.ofByte b ++ utf8 "'"
  | .openList => utf8 "expected ')', found end of input"
  | .bareMark f => utf8 "expected '\x7b' after '^', found " ++ f.text
  | .badKey f => utf8 "expected a symbol as map key, found " ++ f.text
  | .noColon f => utf8 "expected ':', found " ++ f.text
  | .noComma f => utf8 "expected ',' or '\x7d' in map, found " ++ f.text
  | .openString => utf8 "unterminated string"
  | .badEscape b => utf8 "invalid escape sequence: \\" ++ Utf8.ofByte b

/-- The wording of an error, with its line. -/
def ReadError.text (e : ReadError) : Bytes :=
  utf8 "line " ++ Bytes.ofInt e.line ++ utf8 ": " ++ e.cause.text

/-! ## Lexical classes -/

/-- The characters of operators. -/
def isOperatorByte (b : UInt8) : Bool :=
  (utf8 "=!<>+*/%&|").contains b

/-- The first character of a key or of a symbol spelled as a word. -/
def isWordStart (b : UInt8) : Bool :=
  b == byte '_' || Bytes.isLetter b

/-- A character inside a symbol. -/
def isSymbolByte (b : UInt8) : Bool :=
  isWordStart b || Bytes.isDigit b || b == byte '-' || isOperatorByte b

/-- The first character of a symbol. -/
def isSymbolStart (b : UInt8) : Bool :=
  isWordStart b || isOperatorByte b || b == byte '-'

/-- White space between tokens. -/
def isBlank (b : UInt8) : Bool :=
  b == byte ' ' || b == byte '\t' || b == byte '\n' || b == byte '\r'

/-! ## The cursor -/

/-- The input that is left, and where it starts in the whole text. -/
structure Cursor where
  loc : Location
  rest : Bytes
  deriving DecidableEq, Repr

namespace Cursor

/-- A cursor with less input left than `c`. -/
abbrev Later (c : Cursor) : Type :=
  { c' : Cursor // c'.rest.length < c.rest.length }

/-- An error at the cursor's line. -/
def fail {α : Type} (c : Cursor) (cause : ReadCause) : Except ReadError α :=
  .error ⟨c.loc.line, cause⟩

/-- What stands next. -/
def found (c : Cursor) : Found :=
  match c.rest with
  | [] => .endOfInput
  | b :: _ => .byte b

end Cursor

/-- Skips blanks and comments; `comment` tells whether the input starts inside a
comment. -/
def skipBlanksFrom (comment : Bool) (loc : Location) : Bytes → Cursor
  | [] => ⟨loc, []⟩
  | b :: r =>
    if comment then skipBlanksFrom (b != byte '\n') (loc.next b) r
    else if b = byte ';' then skipBlanksFrom true (loc.next b) r
    else if isBlank b then skipBlanksFrom false (loc.next b) r
    else ⟨loc, b :: r⟩

/-- Skips blanks and comments. -/
def Cursor.skipBlanks (c : Cursor) : Cursor :=
  skipBlanksFrom false c.loc c.rest

theorem skipBlanksFrom_length_le (comment : Bool) (loc : Location) (s : Bytes) :
    (skipBlanksFrom comment loc s).rest.length ≤ s.length := by
  induction s generalizing comment loc with
  | nil => simp [skipBlanksFrom]
  | cons b r ih =>
    simp only [skipBlanksFrom]
    split
    · exact Nat.le_succ_of_le (ih _ _)
    · split
      · exact Nat.le_succ_of_le (ih _ _)
      · split
        · exact Nat.le_succ_of_le (ih _ _)
        · exact Nat.le_refl _

theorem Cursor.skipBlanks_length_le (c : Cursor) :
    c.skipBlanks.rest.length ≤ c.rest.length :=
  skipBlanksFrom_length_le false c.loc c.rest

/-- What follows the first byte behind blanks is shorter than the input. -/
theorem Cursor.length_lt_of_skipBlanks {c : Cursor} {loc : Location} {b : UInt8} {r : Bytes}
    (h : c.skipBlanks = ⟨loc, b :: r⟩) : r.length < c.rest.length := by
  have hc := c.skipBlanks_length_le
  rw [h] at hc
  exact hc

/-- Splits off the longest run of bytes that satisfy `p`. -/
def takeRun (p : UInt8 → Bool) (loc : Location) (s : Bytes) : Bytes × Cursor :=
  (s.takeWhile p, ⟨loc.skip (s.takeWhile p), s.dropWhile p⟩)

theorem takeRun_length_le (p : UInt8 → Bool) (loc : Location) (s : Bytes) :
    (takeRun p loc s).2.rest.length ≤ s.length := by
  induction s with
  | nil => simp [takeRun]
  | cons b r ih =>
    simp only [takeRun, List.dropWhile_cons] at ih ⊢
    split
    · exact Nat.le_succ_of_le ih
    · exact Nat.le_refl _

/-- The rest of a string, behind its opening quote. -/
def readString (loc : Location) : (s : Bytes) →
    Except ReadError (Bytes × { c : Cursor // c.rest.length < s.length })
  | [] => .error ⟨loc.line, .openString⟩
  | [b] =>
    if b = byte '"' then .ok ([], ⟨⟨loc.next b, []⟩, by simp⟩)
    else .error ⟨(loc.next b).line, .openString⟩
  | b :: e :: r =>
    if b = byte '"' then .ok ([], ⟨⟨loc.next b, e :: r⟩, by simp⟩)
    else if b = byte '\\' then
      if e = byte '"' ∨ e = byte '\\' then
        match readString ((loc.next b).next e) r with
        | .error err => .error err
        | .ok (text, ⟨c, h⟩) => .ok (e :: text, ⟨c, by simp; omega⟩)
      else .error ⟨((loc.next b).next e).line, .badEscape e⟩
    else
      match readString (loc.next b) (e :: r) with
      | .error err => .error err
      | .ok (text, ⟨c, h⟩) => .ok (b :: text, ⟨c, by simp at h ⊢; omega⟩)

/-! ## Lists and their metadata -/

/-- What stands in a list: an item, or a map of metadata. -/
inductive Element where
  | item (d : Datum)
  | note (keys : List Bytes) (values : List Datum)
  deriving Repr

/-- Stores `value` under `key`: in place of the value stored before, or else at
the end. -/
def setEntry (key : Bytes) (value : Datum) :
    List Bytes → List Datum → List Bytes × List Datum
  | k :: ks, v :: vs =>
    if k = key then (k :: ks, value :: vs)
    else
      let (ks', vs') := setEntry key value ks vs
      (k :: ks', v :: vs')
  | _, _ => ([key], [value])

/-- Stores the entries of one map after another. -/
def setEntries : List Bytes → List Datum → List Bytes × List Datum →
    List Bytes × List Datum
  | k :: ks, v :: vs, stored => setEntries ks vs (setEntry k v stored.1 stored.2)
  | _, _, stored => stored

/-- The metadata of a list: all its maps merged in order, later values winning. -/
def gatherNotes (es : List Element) : List Bytes × List Datum :=
  es.foldl (fun stored e => match e with
    | .item _ => stored
    | .note ks vs => setEntries ks vs stored) ([], [])

/-- The items of a list, its metadata left out. -/
def gatherItems (es : List Element) : List Datum :=
  es.filterMap fun e => match e with
    | .item d => some d
    | .note _ _ => none

/-- The list with the given contents. -/
def ofElements (loc : Location) (es : List Element) : Datum :=
  let notes := gatherNotes es
  .list loc notes.1 notes.2 (gatherItems es)

/-! ## The reader -/

/-- Whether the byte `b` followed by `r` starts an integer. -/
def startsInteger (b : UInt8) (r : Bytes) : Bool :=
  Bytes.isDigit b ||
    ((b == byte '+' || b == byte '-') && match r with
      | [] => false
      | d :: _ => Bytes.isDigit d)

mutual

/-- Reads one datum, blanks in front of it included. -/
def readDatum (c : Cursor) : Except ReadError (Datum × c.Later) :=
  match hs : c.skipBlanks with
  | ⟨loc, []⟩ => .error ⟨loc.line, .missing⟩
  | ⟨loc, b :: r⟩ =>
    have hr : r.length < c.rest.length := Cursor.length_lt_of_skipBlanks hs
    if b = byte '(' then
      match readElements ⟨loc.next b, r⟩ with
      | .error e => .error e
      | .ok (es, ⟨c', h⟩) => .ok (ofElements loc es, ⟨c', Nat.lt_trans h hr⟩)
    else if b = byte '\x7b' then
      match readEntries ⟨loc.next b, r⟩ with
      | .error e => .error e
      | .ok (ks, vs, ⟨c', h⟩) => .ok (.map loc ks vs, ⟨c', Nat.lt_trans h hr⟩)
    else if b = byte '"' then
      match readString (loc.next b) r with
      | .error e => .error e
      | .ok (text, ⟨c', h⟩) => .ok (.atom .string loc text, ⟨c', Nat.lt_trans h hr⟩)
    else if startsInteger b r then
      have h := takeRun_length_le Bytes.isDigit (loc.next b) r
      .ok (.atom .integer loc (b :: (takeRun Bytes.isDigit (loc.next b) r).1),
        ⟨(takeRun Bytes.isDigit (loc.next b) r).2, Nat.lt_of_le_of_lt h hr⟩)
    else if isSymbolStart b then
      have h := takeRun_length_le isSymbolByte (loc.next b) r
      .ok (.atom .symbol loc (b :: (takeRun isSymbolByte (loc.next b) r).1),
        ⟨(takeRun isSymbolByte (loc.next b) r).2, Nat.lt_of_le_of_lt h hr⟩)
    else if (utf8 ")\x7d:,^").contains b then .error ⟨loc.line, .misplaced b⟩
    else .error ⟨loc.line, .strange b⟩
termination_by (c.rest.length, 0)

/-- Reads the contents of a list and its closing bracket. -/
def readElements (c : Cursor) : Except ReadError (List Element × c.Later) :=
  match hs : c.skipBlanks with
  | ⟨loc, []⟩ => .error ⟨loc.line, .openList⟩
  | ⟨loc, b :: r⟩ =>
    have hr : r.length < c.rest.length := Cursor.length_lt_of_skipBlanks hs
    if b = byte ')' then .ok ([], ⟨⟨loc.next b, r⟩, hr⟩)
    else if b = byte '^' then
      match r with
      | [] => .error ⟨loc.line, .bareMark .endOfInput⟩
      | o :: r' =>
        have hr' : r'.length < c.rest.length := Nat.lt_of_succ_lt hr
        if o = byte '\x7b' then
          match readEntries ⟨(loc.next b).next o, r'⟩ with
          | .error e => .error e
          | .ok (ks, vs, ⟨c₁, h₁⟩) =>
            have h₁' : c₁.rest.length < c.rest.length := Nat.lt_trans h₁ hr'
            match readElements c₁ with
            | .error e => .error e
            | .ok (es, ⟨c₂, h₂⟩) => .ok (.note ks vs :: es, ⟨c₂, Nat.lt_trans h₂ h₁'⟩)
        else .error ⟨loc.line, .bareMark (.byte o)⟩
    else
      match readDatum c with
      | .error e => .error e
      | .ok (d, ⟨c₁, h₁⟩) =>
        match readElements c₁ with
        | .error e => .error e
        | .ok (es, ⟨c₂, h₂⟩) => .ok (.item d :: es, ⟨c₂, Nat.lt_trans h₂ h₁⟩)
termination_by (c.rest.length, 1)

/-- Reads the entries of a map and its closing brace. -/
def readEntries (c : Cursor) :
    Except ReadError (List Bytes × List Datum × c.Later) :=
  match hs : c.skipBlanks with
  | ⟨loc, []⟩ => .error ⟨loc.line, .badKey .endOfInput⟩
  | ⟨loc, b :: r⟩ =>
    have hr : r.length < c.rest.length := Cursor.length_lt_of_skipBlanks hs
    if b = byte '\x7d' then .ok ([], [], ⟨⟨loc.next b, r⟩, hr⟩)
    else if isWordStart b then
      have hk := takeRun_length_le isSymbolByte (loc.next b) r
      let key := b :: (takeRun isSymbolByte (loc.next b) r).1
      let c₁ := (takeRun isSymbolByte (loc.next b) r).2
      match hs₁ : c₁.skipBlanks with
      | ⟨loc₁, []⟩ => .error ⟨loc₁.line, .noColon .endOfInput⟩
      | ⟨loc₁, b₁ :: r₁⟩ =>
        have hr₁ : r₁.length < c.rest.length :=
          Nat.lt_trans (Nat.lt_of_lt_of_le (Cursor.length_lt_of_skipBlanks hs₁) hk) hr
        if b₁ = byte ':' then
          match readDatum ⟨loc₁.next b₁, r₁⟩ with
          | .error e => .error e
          | .ok (v, ⟨c₂, h₂⟩) =>
            have h₂' : c₂.rest.length < c.rest.length := Nat.lt_trans h₂ hr₁
            match hs₂ : c₂.skipBlanks with
            | ⟨loc₂, []⟩ => .error ⟨loc₂.line, .noComma .endOfInput⟩
            | ⟨loc₂, b₂ :: r₂⟩ =>
              have hr₂ : r₂.length < c.rest.length :=
                Nat.lt_trans (Cursor.length_lt_of_skipBlanks hs₂) h₂'
              if b₂ = byte ',' then
                match readEntries ⟨loc₂.next b₂, r₂⟩ with
                | .error e => .error e
                | .ok (ks, vs, ⟨c₃, h₃⟩) =>
                  .ok (key :: ks, v :: vs, ⟨c₃, Nat.lt_trans h₃ hr₂⟩)
              else if b₂ = byte '\x7d' then
                .ok ([key], [v], ⟨⟨loc₂.next b₂, r₂⟩, hr₂⟩)
              else .error ⟨loc₂.line, .noComma (.byte b₂)⟩
        else .error ⟨loc₁.line, .noColon (.byte b₁)⟩
    else .error ⟨loc.line, .badKey (.byte b)⟩
termination_by (c.rest.length, 0)

end

/-- Reads a text that holds exactly one datum. -/
def read (s : Bytes) : Except ReadError Datum :=
  match readDatum ⟨.start, s⟩ with
  | .error e => .error e
  | .ok (d, ⟨c, _⟩) =>
    match c.skipBlanks with
    | ⟨_, []⟩ => .ok d
    | ⟨loc, b :: _⟩ => .error ⟨loc.line, .trailing (.byte b)⟩

end TreeWat.Datum
