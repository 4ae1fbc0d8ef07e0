import TreeWat.Datum.Reader
set_option autoImplicit false

/-!
# Datum: reading by positions

The reader of the notation as a walk over a text that stays as it is: a position moves along
it, loops turn, routines call each other, and bytes are taken at the position.  Taking a byte
behind the end of the text, or an element from outside of a list, ends the walk with a panic.
Nothing in a routine says that this cannot happen, or that a loop comes to an end: loops and
nested calls are bounded by an amount of fuel, and a walk that uses it up is given up.

Everything that matters for the bounds is written down while the walk goes on: each byte that
is taken, each call with the positions before and behind it, and each turn of a loop after
which the loop goes on.
-/

namespace TreeWat.Datum

/-! ## Walks -/

/-- The routines of the reader. -/
inductive Routine where
  | skipSpace
  | expect
  | datum
  | datumHere
  | list
  | table
  | str
  | integer
  | symbol
  deriving DecidableEq, Repr

/-- The loops of the reader. -/
inductive Loop where
  | blanks
  | comment
  | list
  | table
  | str
  | digits
  | symbol
  deriving DecidableEq, Repr

/-- What is written down during a walk. -/
inductive Event where
  /-- The byte at a position is taken. -/
  | next (pos : Nat)
  /-- A call comes back, with a result or with an error. -/
  | call (routine : Routine) (start stop : Nat) (succeeded : Bool)
  /-- A turn of a loop ends, and the loop goes on. -/
  | turn (loop : Loop) (start stop : Nat)
  deriving DecidableEq, Repr

/-- Where a walk is. -/
structure State where
  text : Bytes
  /-- The number of bytes behind the walk. -/
  pos : Nat
  loc : Location
  trace : List Event
  deriving DecidableEq, Repr

/-- Why a walk ends early. -/
inductive Halt (ε : Type) where
  /-- An error that is reported. -/
  | error (e : ε)
  /-- An index out of range. -/
  | panic
  /-- The fuel is used up. -/
  | exhausted
  deriving DecidableEq, Repr

/-- A part of the reader. -/
abbrev Walk (α : Type) : Type :=
  ExceptT (Halt ReadError) (StateM State) α

/-- How a turn of a loop ends. -/
inductive Turn (σ α : Type) where
  | again (x : σ)
  | finish (a : α)

namespace Walk

variable {σ α : Type}

/-! ## Indices -/

/-- The element of a list at an index. -/
def index (xs : List α) (i : Nat) : Walk α :=
  match xs[i]? with
  | some x => pure x
  | none => throw .panic

/-- The list with another element at an index. -/
def replace (xs : List α) (i : Nat) (x : α) : Walk (List α) :=
  if i < xs.length then pure (xs.set i x) else throw .panic

/-- The text between a position and the one reached. -/
def slice (start : Nat) : Walk Bytes := do
  let s ← get
  if start ≤ s.pos ∧ s.pos ≤ s.text.length then pure ((s.text.take s.pos).drop start)
  else throw .panic

/-! ## Control -/

/-- Writes an event down. -/
def record (e : Event) : Walk Unit :=
  modify fun s => { s with trace := s.trace ++ [e] }

/-- A call of a routine. -/
def call (routine : Routine) (t : Walk α) : Walk α := ExceptT.mk do
  let s ← get
  let outcome ← t.run
  modify fun s' =>
    { s' with trace := s'.trace ++ [.call routine s.pos s'.pos outcome.isOk] }
  pure outcome

/-- A loop that carries a value from turn to turn. -/
def loop (l : Loop) (turn : σ → Walk (Turn σ α)) : Nat → σ → Walk α
  | 0, _ => throw .exhausted
  | fuel + 1, x => do
    let s ← get
    match ← turn x with
    | .finish a => pure a
    | .again y =>
      let s' ← get
      record (.turn l s.pos s'.pos)
      loop l turn fuel y

/-! ## Bytes -/

/-- Whether the text is at its end. -/
def done : Walk Bool := do
  let s ← get
  pure (s.text.length ≤ s.pos)

/-- The byte `offset` places ahead; zero behind the end, as for a zero byte. -/
def peekAt (offset : Nat) : Walk UInt8 := do
  let s ← get
  if s.text.length ≤ s.pos + offset then pure 0 else index s.text (s.pos + offset)

/-- The byte ahead. -/
def peek : Walk UInt8 :=
  peekAt 0

/-- Whether the byte ahead is `b`; not at the end. -/
def sees (b : UInt8) : Walk Bool := do
  let s ← get
  if s.text.length ≤ s.pos then pure false
  else
    let c ← index s.text s.pos
    pure (c == b)

/-- Takes the byte ahead, without a look at the end. -/
def next : Walk UInt8 := do
  let s ← get
  record (.next s.pos)
  let b ← index s.text s.pos
  modify fun s => { s with pos := s.pos + 1, loc := s.loc.next b }
  pure b

/-- What stands next, for a report. -/
def found : Walk Found := do
  if ← done then pure .endOfInput
  else
    let b ← peek
    pure (.byte b)

/-- Reports an error at the line reached. -/
def fail (cause : ReadCause) : Walk α := do
  let s ← get
  throw (.error ⟨s.loc.line, cause⟩)

/-- Reports an error that names what stands next. -/
def failFound (cause : Found → ReadCause) : Walk α := do
  let f ← found
  fail (cause f)

/-! ## Tokens -/

/-- Takes bytes as long as a test succeeds. -/
def advanceWhile (l : Loop) (test : Walk Bool) (fuel : Nat) : Walk Unit :=
  loop l (fun _ => do
    if ← test then
      let _ ← next
      pure (.again ())
    else pure (.finish ())) fuel ()

/-- Whether the byte ahead belongs to a comment. -/
def inComment : Walk Bool := do
  let atEnd ← done
  let atBreak ← sees (byte '\n')
  pure (!atEnd && !atBreak)

/-- Whether the byte ahead belongs to a symbol. -/
def inSymbol : Walk Bool := do
  let atEnd ← done
  let b ← peek
  pure (!atEnd && isSymbolByte b)

/-- Whether the byte ahead is a digit. -/
def inDigits : Walk Bool := do
  let b ← peek
  pure (Bytes.isDigit b)

/-- A turn over blanks: a blank, or a comment up to the end of its line. -/
def skipTurn (fuel : Nat) (_ : Unit) : Walk (Turn Unit Unit) := do
  if ← done then pure (.finish ())
  else
    let b ← peek
    if b = byte ';' then
      advanceWhile .comment inComment fuel
      pure (.again ())
    else if isBlank b then
      let _ ← next
      pure (.again ())
    else pure (.finish ())

/-- Skips blanks and comments. -/
def skipSpace (fuel : Nat) : Walk Unit :=
  call .skipSpace (loop .blanks (skipTurn fuel) fuel ())

/-- Takes a mark that has to come next. -/
def expect (fuel : Nat) (b : UInt8) (cause : Found → ReadCause) : Walk Unit :=
  call .expect do
    skipSpace fuel
    if ← sees b then
      let _ ← next
      pure ()
    else failFound cause

/-- Reads a symbol. -/
def symbol (fuel : Nat) : Walk Bytes :=
  call .symbol do
    let s ← get
    advanceWhile .symbol inSymbol fuel
    slice s.pos

/-- Takes a sign. -/
def sign : Walk Unit := do
  let plus ← sees (byte '+')
  let minus ← sees (byte '-')
  if plus || minus then
    let _ ← next
    pure ()
  else pure ()

/-- Reads an integer. -/
def integer (fuel : Nat) : Walk Bytes :=
  call .integer do
    let s ← get
    sign
    advanceWhile .digits inDigits fuel
    slice s.pos

/-- A turn inside a string: a byte, or a backslash with the byte behind it. -/
def strTurn (text : Bytes) : Walk (Turn Bytes Bytes) := do
  if ← done then fail .openString
  else
    let b ← next
    if b = byte '"' then pure (.finish text)
    else if b = byte '\\' then
      if ← done then fail .openString
      else
        let e ← next
        if e = byte '"' ∨ e = byte '\\' then pure (.again (text ++ [e]))
        else fail (.badEscape e)
    else pure (.again (text ++ [b]))

/-- Reads a string. -/
def str (fuel : Nat) : Walk Bytes :=
  call .str do
    let _ ← next
    loop .str strTurn fuel []

/-! ## Metadata -/

/-- Stores the value at an index of `values` under a key. -/
def storeNote (values : List Datum) (i : Nat) (key : Bytes) (stored : List Bytes × List Datum) :
    Walk (List Bytes × List Datum) :=
  match stored.1.findIdx? (· = key) with
  | some j => do
    let v ← index values i
    let replaced ← replace stored.2 j v
    pure (stored.1, replaced)
  | none => do
    let v ← index values i
    pure (stored.1 ++ [key], stored.2 ++ [v])

/-- Stores the entries of a map from an index on. -/
def mergeFrom (values : List Datum) : Nat → List Bytes → List Bytes × List Datum →
    Walk (List Bytes × List Datum)
  | _, [], stored => pure stored
  | i, key :: keys, stored => do
    let stored ← storeNote values i key stored
    mergeFrom values (i + 1) keys stored

/-! ## Data -/

/-- What has been read of a list. -/
structure ListSoFar where
  notes : List Bytes × List Datum
  items : List Datum

section Nested

variable (fuel : Nat) (datum : Walk Datum)

/-- Reads an entry of a map: a key, a colon and a value. -/
def entry : Walk (Bytes × Datum) := do
  let key ← symbol fuel
  expect fuel (byte ':') .noColon
  let value ← datum
  pure (key, value)

/-- Takes the comma behind an entry; a closing brace stays. -/
def separator : Walk Unit := do
  skipSpace fuel
  if ← sees (byte ',') then
    let _ ← next
    pure ()
  else if ← sees (byte '\x7d') then pure ()
  else failFound .noComma

/-- A turn inside a map: its end, or an entry with the comma behind it. -/
def tableTurn (entries : List Bytes × List Datum) :
    Walk (Turn (List Bytes × List Datum) (List Bytes × List Datum)) := do
  skipSpace fuel
  if ← sees (byte '\x7d') then
    let _ ← next
    pure (.finish entries)
  else
    let b ← peek
    if isWordStart b then
      let e ← entry fuel datum
      separator fuel
      pure (.again (entries.1 ++ [e.1], entries.2 ++ [e.2]))
    else failFound .badKey

/-- Reads a map. -/
def table : Walk (List Bytes × List Datum) :=
  call .table do
    let _ ← next
    loop .table (tableTurn fuel datum) fuel ([], [])

/-- A turn inside a list: its end, a map of metadata, or an item. -/
def listTurn (list : ListSoFar) : Walk (Turn ListSoFar Datum) := do
  skipSpace fuel
  if ← done then fail .openList
  else if ← sees (byte ')') then
    let _ ← next
    pure (.finish (.list .nowhere list.notes.1 list.notes.2 list.items))
  else if ← sees (byte '^') then
    let _ ← next
    if ← sees (byte '\x7b') then
      let entries ← table fuel datum
      let notes ← mergeFrom entries.2 0 entries.1 list.notes
      pure (.again { list with notes })
    else failFound .bareMark
  else
    let item ← datum
    pure (.again { list with items := list.items ++ [item] })

/-- Reads a list. -/
def list : Walk Datum :=
  call .list do
    let _ ← next
    loop .list (listTurn fuel datum) fuel ⟨([], []), []⟩

/-- Reads the datum that starts here. -/
def datumHere : Walk Datum :=
  call .datumHere do
    let b ← peek
    let ahead ← peekAt 1
    if ← done then fail .missing
    else if b = byte '(' then list fuel datum
    else if b = byte '\x7b' then
      let entries ← table fuel datum
      pure (.map .nowhere entries.1 entries.2)
    else if b = byte '"' then
      let text ← str fuel
      pure (.atom .string .nowhere text)
    else if Bytes.isDigit b || ((b == byte '+' || b == byte '-') && Bytes.isDigit ahead) then
      let text ← integer fuel
      pure (.atom .integer .nowhere text)
    else if isSymbolStart b then
      let text ← symbol fuel
      pure (.atom .symbol .nowhere text)
    else if (utf8 ")\x7d:,^").contains b then fail (.misplaced b)
    else fail (.strange b)

end Nested

/-- The datum at another location. -/
def located (loc : Location) : Datum → Datum
  | .atom sort _ text => .atom sort loc text
  | .list _ keys values items => .list loc keys values items
  | .map _ keys values => .map loc keys values
  | .foreign _ sort => .foreign loc sort

/-- Reads one datum, blanks in front of it included. -/
def datum : Nat → Walk Datum
  | 0 => throw .exhausted
  | fuel + 1 =>
    call .datum do
      skipSpace (fuel + 1)
      let s ← get
      let d ← datumHere (fuel + 1) (datum fuel)
      pure (located s.loc d)

/-- Reads a text that holds exactly one datum. -/
def document (fuel : Nat) : Walk Datum := do
  let d ← datum fuel
  skipSpace fuel
  if ← done then pure d else failFound .trailing

end Walk

/-- A walk at the start of a text. -/
def State.start (text : Bytes) : State :=
  ⟨text, 0, .start, []⟩

end TreeWat.Datum
