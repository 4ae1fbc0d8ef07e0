import TreeWat.Text.Utf8
import TreeWat.Toml.Moment
set_option autoImplicit false

/-!
# Toml: reading settings files

A settings file is a sequence of lines: a key with a value, a table heading, or the
heading of a table in an array.  The reader gives the lines in order, up to the first that
is malformed; which of them may follow which is the business of `Toml.Defined`.

Numbers are only recognised, since no setting uses one.
-/

namespace TreeWat.Toml

/-- A value. -/
inductive Value where
  | string (s : Bytes)
  | boolean (b : Bool)
  | number (text : Bytes)
  | moment (m : Moment)
  | array (items : List Value)
  /-- A table in braces: dotted keys with their values. -/
  | table (entries : List (List Bytes × Value))
  deriving Repr, Inhabited

/-- One line of a file. -/
inductive Entry where
  | pair (key : List Bytes) (value : Value)
  | heading (key : List Bytes)
  | arrayHeading (key : List Bytes)
  deriving Repr

/-! ## Characters -/

/-- Blanks inside a line. -/
def isBlank (b : UInt8) : Bool :=
  b == byte ' ' || b == byte '\t'

/-- Control characters that may stand nowhere in a file. -/
def isForbidden (b : UInt8) : Bool :=
  b < 0x09 || b == 0x0B || b == 0x0C || (0x0E ≤ b && b < 0x20) || b == 0x7F

/-- Drops blanks. -/
def skipBlanks (s : Bytes) : Bytes :=
  s.dropWhile isBlank

/-- Drops a line break. -/
def skipNewline? : Bytes → Option Bytes
  | b :: r =>
    if b = byte '\n' then some r
    else if b = byte '\r' then
      match r with
      | c :: r' => if c = byte '\n' then some r' else none
      | [] => none
    else none
  | [] => none

/-- Drops a comment up to the line break behind it.  The first `skip` bytes belong to
a code point that was already looked at. -/
def skipComment? (skip : Nat) : Bytes → Option Bytes
  | [] => some []
  | b :: r =>
    match skip with
    | k + 1 => skipComment? k r
    | 0 =>
      if b = byte '\n' then some (b :: r)
      else if b = byte '\r' then (if r.head? = some (byte '\n') then some r else none)
      else if isForbidden b then none
      else match Utf8.scalar? b r with
        | some (_, k) => skipComment? k r
        | none => none

/-- Drops blanks, comments and line breaks; `fuel` bounds the number of lines. -/
def skipLines? (fuel : Nat) (s : Bytes) : Option Bytes :=
  match fuel with
  | 0 => some (skipBlanks s)
  | fuel + 1 =>
    match skipBlanks s with
    | [] => some []
    | b :: r =>
      if b = byte '#' then do
        let rest ← skipComment? 0 r
        match rest with
        | [] => some []
        | rest => skipLines? fuel (← skipNewline? rest)
      else if b = byte '\n' || b = byte '\r' then do
        skipLines? fuel (← skipNewline? (b :: r))
      else some (b :: r)

/-! ## Strings -/

/-- The value of a hexadecimal digit. -/
def hexValue? (b : UInt8) : Option Nat :=
  if Bytes.isDigit b then some (b.toNat - 48)
  else if byte 'a' ≤ b && b ≤ byte 'f' then some (b.toNat - 87)
  else if byte 'A' ≤ b && b ≤ byte 'F' then some (b.toNat - 55)
  else none

/-- The code point written with the given hexadecimal digits. -/
def codePoint? (digits : Bytes) : Option Bytes := do
  let n ← digits.foldlM (fun n b => (hexValue? b).map (16 * n + ·)) 0
  if n < 0xD800 || (0xDFFF < n && n < 0x110000) then some (Utf8.encode n) else none

/-- The character an escape letter stands for. -/
def escape? (b : UInt8) : Option UInt8 :=
  [(byte '"', byte '"'), (byte '\\', byte '\\'), (byte 'b', 0x08), (byte 'f', 0x0C),
    (byte 'n', byte '\n'), (byte 'r', byte '\r'), (byte 't', byte '\t'),
    (byte 'e', 0x1B)].lookup b

/-- Reads an escape sequence behind its backslash: what it stands for, and how many
bytes it takes. -/
def readEscape? (s : Bytes) : Option (Bytes × Nat) :=
  match s with
  | [] => none
  | b :: r =>
    if b = byte 'u' then
      if r.length < 4 then none else (codePoint? (r.take 4)).map (·, 5)
    else if b = byte 'U' then
      if r.length < 8 then none else (codePoint? (r.take 8)).map (·, 9)
    else (escape? b).map fun c => ([c], 1)

/-- Reads a string in double quotes behind the opening quote.  The first `skip`
bytes are part of what was already read, and are kept if `keep` says so. -/
def readBasic? (keep : Bool) (skip : Nat) : Bytes → Option (Bytes × Bytes)
  | [] => none
  | b :: r =>
    match skip with
    | k + 1 => (readBasic? keep k r).map fun (t, rest) => (if keep then b :: t else t, rest)
    | 0 =>
      if b = byte '"' then some ([], r)
      else if b = byte '\n' || b = byte '\r' || isForbidden b then none
      else if b = byte '\\' then do
        let (c, k) ← readEscape? r
        let (t, rest) ← readBasic? false k r
        some (c ++ t, rest)
      else do
        let (_, k) ← Utf8.scalar? b r
        let (t, rest) ← readBasic? true k r
        some (b :: t, rest)

/-- Reads a string in single quotes behind the opening quote. -/
def readLiteral? (skip : Nat) : Bytes → Option (Bytes × Bytes)
  | [] => none
  | b :: r =>
    match skip with
    | k + 1 => (readLiteral? k r).map fun (t, rest) => (b :: t, rest)
    | 0 =>
      if b = 0x27 then some ([], r)
      else if b = byte '\n' || b = byte '\r' || isForbidden b then none
      else do
        let (_, k) ← Utf8.scalar? b r
        let (t, rest) ← readLiteral? k r
        some (b :: t, rest)

/-- The closing delimiter of a long string at the front of a text: three quotes, and
up to two more that belong to the string. -/
def closeLong? (q : UInt8) (s : Bytes) : Option (Bytes × Bytes) :=
  match (s.takeWhile (· = q)).length with
  | 3 => some ([], s.drop 3)
  | 4 => some ([q], s.drop 4)
  | 5 => some ([q, q], s.drop 5)
  | _ => none

/-- The length of the blanks and line breaks in front of a text. -/
def spaceLength : Bytes → Nat
  | [] => 0
  | b :: r =>
    if isBlank b || b = byte '\n' || (b = byte '\r' && r.head? = some (byte '\n')) then
      spaceLength r + 1
    else 0

/-- The length of the white space behind a backslash that ends a line, if it does. -/
def lineEnd? (s : Bytes) : Option Nat :=
  (skipNewline? (skipBlanks s)).map fun _ => spaceLength s

/-- Reads a string in three double quotes behind the opening ones. -/
def readLongBasic? (keep : Bool) (skip : Nat) : Bytes → Option (Bytes × Bytes)
  | [] => none
  | b :: r =>
    match skip with
    | k + 1 =>
      (readLongBasic? keep k r).map fun (t, rest) => (if keep then b :: t else t, rest)
    | 0 =>
      if Bytes.startsWith (b :: r) (utf8 "\"\"\"") then closeLong? b (b :: r)
      else if b = byte '\r' && r.head? ≠ some (byte '\n') then none
      else if isForbidden b then none
      else if b = byte '\\' then
        match lineEnd? r with
        | some k => readLongBasic? false k r
        | none => do
          let (c, k) ← readEscape? r
          let (t, rest) ← readLongBasic? false k r
          some (c ++ t, rest)
      else do
        let (_, k) ← Utf8.scalar? b r
        let (t, rest) ← readLongBasic? true k r
        some (b :: t, rest)

/-- Reads a string in three single quotes behind the opening ones. -/
def readLongLiteral? (skip : Nat) : Bytes → Option (Bytes × Bytes)
  | [] => none
  | b :: r =>
    match skip with
    | k + 1 => (readLongLiteral? k r).map fun (t, rest) => (b :: t, rest)
    | 0 =>
      if Bytes.startsWith (b :: r) (utf8 "'''") then closeLong? b (b :: r)
      else if b = byte '\r' && r.head? ≠ some (byte '\n') then none
      else if isForbidden b then none
      else do
        let (_, k) ← Utf8.scalar? b r
        let (t, rest) ← readLongLiteral? k r
        some (b :: t, rest)

/-- Drops the line break that may follow the opening of a long string. -/
def skipFirstNewline (s : Bytes) : Bytes :=
  (skipNewline? s).getD s

/-- Reads a string of any of the four forms. -/
def readString? (s : Bytes) : Option (Bytes × Bytes) :=
  if Bytes.startsWith s (utf8 "\"\"\"") then readLongBasic? true 0 (skipFirstNewline (s.drop 3))
  else if Bytes.startsWith s (utf8 "'''") then readLongLiteral? 0 (skipFirstNewline (s.drop 3))
  else match s with
    | b :: r =>
      if b = byte '"' then readBasic? true 0 r
      else if b = 0x27 then readLiteral? 0 r
      else none
    | [] => none

/-! ## Keys -/

/-- A character of a key without quotes. -/
def isKeyByte (b : UInt8) : Bool :=
  Bytes.isLetter b || Bytes.isDigit b || b == byte '-' || b == byte '_'

/-- Reads one part of a key. -/
def readKeyPart? (s : Bytes) : Option (Bytes × Bytes) :=
  match s with
  | [] => none
  | b :: r =>
    if b = byte '"' then readBasic? true 0 r
    else if b = 0x27 then readLiteral? 0 r
    else if isKeyByte b then some (s.takeWhile isKeyByte, s.dropWhile isKeyByte)
    else none

/-- Reads a dotted key; `fuel` bounds the number of its parts. -/
def readKey? (fuel : Nat) (s : Bytes) : Option (List Bytes × Bytes) :=
  match fuel with
  | 0 => none
  | fuel + 1 => do
    let (part, rest) ← readKeyPart? s
    match skipBlanks rest with
    | b :: r =>
      if b = byte '.' then do
        let (parts, rest') ← readKey? fuel (skipBlanks r)
        some (part :: parts, rest')
      else some ([part], b :: r)
    | [] => some ([part], [])

/-! ## Values -/

/-- The number of bytes of a decimal number at the front of a text, infinity and
not-a-number included; `none` if a letter spoils it. -/
def decimalLength? : Bytes → Option Nat
  | [] => some 0
  | b :: r =>
    if Bytes.isDigit b || (utf8 "+-_.eE").elem b then (decimalLength? r).map (· + 1)
    else if b = byte 'i' then if Bytes.startsWith r (utf8 "nf") then some 3 else none
    else if b = byte 'n' then if Bytes.startsWith r (utf8 "an") then some 3 else none
    else some 0

/-- The number of bytes of a number at the front of a text. -/
def numberLength? (s : Bytes) : Option Nat :=
  match s with
  | z :: m :: _ :: _ =>
    if z = byte '0' && !((utf8 ".eE").elem m) then
      if m = byte 'x' then
        some (2 + ((s.drop 2).takeWhile fun b => (hexValue? b).isSome || b = byte '_').length)
      else if m = byte 'o' then
        some (2 + ((s.drop 2).takeWhile fun b =>
          (byte '0' ≤ b && b ≤ byte '7') || b = byte '_').length)
      else if m = byte 'b' then
        some (2 + ((s.drop 2).takeWhile fun b =>
          b = byte '0' || b = byte '1' || b = byte '_').length)
      else some 1
    else decimalLength? s
  | _ => decimalLength? s

/-- Reads a number, a date or a time. -/
def readScalar? (s : Bytes) : Option (Value × Bytes) :=
  if startsMoment s then
    let (m, rest) := readMoment s
    some (.moment m, rest)
  else
    match numberLength? s with
    | some (n + 1) => some (.number (s.take (n + 1)), s.drop (n + 1))
    | _ => none

mutual

/-- Reads a value; `fuel` bounds its depth and the number of its parts. -/
def readValue? (fuel : Nat) (s : Bytes) : Option (Value × Bytes) :=
  match fuel with
  | 0 => none
  | fuel + 1 =>
    match s with
    | [] => none
    | b :: r =>
      if b = byte '"' || b = 0x27 then
        (readString? s).map fun (t, rest) => (.string t, rest)
      else if b = byte 't' then
        if Bytes.startsWith s (utf8 "true") then some (.boolean true, s.drop 4) else none
      else if b = byte 'f' then
        if Bytes.startsWith s (utf8 "false") then some (.boolean false, s.drop 5) else none
      else if b = byte '[' then
        (readItems? fuel true r).map fun (items, rest) => (.array items, rest)
      else if b = byte '\x7b' then
        (readEntries? fuel true r).map fun (entries, rest) => (.table entries, rest)
      else readScalar? s

/-- Reads the items of an array and its closing bracket. -/
def readItems? (fuel : Nat) (first : Bool) (s : Bytes) : Option (List Value × Bytes) :=
  match fuel with
  | 0 => none
  | fuel + 1 => do
    let s ← skipLines? s.length s
    match s with
    | [] => none
    | b :: r =>
      if b = byte ']' then some ([], r)
      else
        let s' ← if b = byte ',' then (if first then none else skipLines? r.length r)
          else if first then some s else none
        match s' with
        | [] => none
        | c :: r' =>
          if c = byte ']' then some ([], r')
          else do
            let (v, rest) ← readValue? fuel s'
            let (vs, rest') ← readItems? fuel false rest
            some (v :: vs, rest')

/-- Reads the entries of a table in braces and the closing brace. -/
def readEntries? (fuel : Nat) (first : Bool) (s : Bytes) :
    Option (List (List Bytes × Value) × Bytes) :=
  match fuel with
  | 0 => none
  | fuel + 1 =>
    match skipBlanks s with
    | [] => none
    | b :: r =>
      if b = byte '\x7d' then some ([], r)
      else do
        let s' ← if first then some (b :: r)
          else if b = byte ',' then some (skipBlanks r) else none
        let (key, rest) ← readKey? s'.length s'
        match skipBlanks rest with
        | e :: rest' =>
          if e = byte '=' then do
            let (v, rest'') ← readValue? fuel (skipBlanks rest')
            let (es, rest₃) ← readEntries? fuel false rest''
            some ((key, v) :: es, rest₃)
          else none
        | [] => none

end

/-! ## Files -/

/-- Reads a table heading, brackets included. -/
def readHeading? (s : Bytes) : Option (Entry × Bytes) :=
  if Bytes.startsWith s (utf8 "[[") then do
    let (key, rest) ← readKey? s.length (skipBlanks (s.drop 2))
    if Bytes.startsWith (skipBlanks rest) (utf8 "]]") then
      some (.arrayHeading key, (skipBlanks rest).drop 2)
    else none
  else do
    let (key, rest) ← readKey? s.length (skipBlanks (s.drop 1))
    if Bytes.startsWith (skipBlanks rest) (utf8 "]") then
      some (.heading key, (skipBlanks rest).drop 1)
    else none

/-- Reads a key with its value. -/
def readPair? (s : Bytes) : Option (Entry × Bytes) := do
  let (key, rest) ← readKey? s.length s
  match skipBlanks rest with
  | e :: rest' =>
    if e = byte '=' then do
      let (v, rest'') ← readValue? (s.length + 1) (skipBlanks rest')
      some (.pair key v, rest'')
    else none
  | [] => none

/-- Reads the entry at the front of a text and the end of its line. -/
def readEntry? (s : Bytes) : Option (Entry × Bytes) := do
  let (entry, rest) ← if s.head? = some (byte '[') then readHeading? s else readPair? s
  let rest := skipBlanks rest
  let rest ← match rest with
    | c :: r => if c = byte '#' then skipComment? 0 r else some rest
    | [] => some []
  some (entry, rest)

/-- The lines of a file, and whether it is well-formed to its end. -/
structure Document where
  entries : List Entry
  isComplete : Bool
  deriving Repr

/-- A document with one more entry in front. -/
def Document.cons (e : Entry) (d : Document) : Document :=
  { d with entries := e :: d.entries }

/-- Reads lines up to the end of the file; `fuel` bounds their number. -/
def readFrom (fuel : Nat) (s : Bytes) : Document :=
  match fuel with
  | 0 => ⟨[], false⟩
  | fuel + 1 =>
    match skipLines? s.length s with
    | none => ⟨[], false⟩
    | some [] => ⟨[], true⟩
    | some s =>
      match readEntry? s with
      | none => ⟨[], false⟩
      | some (entry, []) => ⟨[entry], true⟩
      | some (entry, rest) =>
        match skipNewline? rest with
        | none => ⟨[entry], false⟩
        | some rest => (readFrom fuel rest).cons entry

/-- Reads a whole file. -/
def read (s : Bytes) : Document :=
  readFrom (s.length + 1) s

end TreeWat.Toml
