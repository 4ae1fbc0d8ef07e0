import TreeWat.Wat.Basic
set_option autoImplicit false

/-!
# Wat: string literals in linear memory

String literals are laid out one behind the other in the order in which they are
met; equal literals are not shared.  A literal keeps the escapes of the source, and
a backslash with the byte behind it stands for one byte of memory.
-/

namespace TreeWat.Wat

/-- The number of bytes a literal occupies.  A backslash at the very end stands for
itself. -/
def literalLength : Bytes → Nat
  | [] => 0
  | [_] => 1
  | b :: c :: r => if b = byte '\\' then literalLength r + 1 else literalLength (c :: r) + 1

/-- The escape of the format for the byte behind a backslash.  The format lacks
`\b`, `\f` and `\r`, which are written as numbers. -/
def escapePair (b : UInt8) : Bytes :=
  if b = byte 'b' then utf8 "\\08"
  else if b = byte 'f' then utf8 "\\0c"
  else if b = byte 'r' then utf8 "\\0d"
  else [byte '\\', b]

/-- A byte as a backslash and two hexadecimal digits. -/
def escapeByte (b : UInt8) : Bytes :=
  byte '\\' :: Bytes.ofHex false 2 b.toNat

/-- A literal in the string format of the module: plain bytes as numbers, escapes as
escapes. -/
def escapeLiteral : Bytes → Bytes
  | [] => []
  | [b] => escapeByte b
  | b :: c :: r =>
    if b = byte '\\' then escapePair c ++ escapeLiteral r
    else escapeByte b ++ escapeLiteral (c :: r)

/-- The literals met so far. -/
structure Literals where
  /-- How many bytes they occupy. -/
  size : Nat
  data : List Data
  deriving DecidableEq, Repr, Inhabited

namespace Literals

/-- No literals. -/
def empty : Literals := ⟨0, []⟩

/-- Appends a literal, which comes to lie at the old size. -/
def intern (t : Literals) (raw : Bytes) : Literals :=
  ⟨t.size + literalLength raw, t.data ++ [⟨t.size, escapeLiteral raw⟩]⟩

end Literals

end TreeWat.Wat
