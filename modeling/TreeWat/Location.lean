import TreeWat.Text.Bytes
set_option autoImplicit false

/-!
# Location: places in a source text

Lines and columns count from one, and a column counts bytes.  A location whose
line is not positive points nowhere; metadata may set any number, so both
components are integers.
-/

namespace TreeWat

/-- A line and a column. -/
structure Location where
  line : Int
  column : Int
  deriving DecidableEq, Repr, Inhabited

namespace Location

/-- Where a text starts. -/
def start : Location := ⟨1, 1⟩

/-- The location of things that stand nowhere. -/
def nowhere : Location := ⟨0, 0⟩

/-- Whether the location points somewhere. -/
def isKnown (l : Location) : Bool :=
  0 < l.line

/-- The wording used in messages. -/
def text (l : Location) : Bytes :=
  if l.isKnown then
    utf8 "line " ++ Bytes.ofInt l.line ++ utf8 ", column " ++ Bytes.ofInt l.column
  else utf8 "unknown location"

/-- The location behind the byte `b` that stands at `l`. -/
def next (l : Location) (b : UInt8) : Location :=
  if b = byte '\n' then ⟨l.line + 1, 1⟩ else ⟨l.line, l.column + 1⟩

/-- The location behind a whole text that starts at `l`. -/
def skip (l : Location) (s : Bytes) : Location :=
  s.foldl next l

end Location

end TreeWat
