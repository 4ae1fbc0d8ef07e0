import TreeWat.Text.Bytes
set_option autoImplicit false

/-!
# Text: code points in byte strings

Reading one code point off the front of a byte string by the rules of UTF-8:
shortest form only, no surrogates, nothing above U+10FFFF.  A byte that starts no
valid sequence is reported as such and stands for itself.
-/

namespace TreeWat.Utf8

/-- A continuation byte. -/
def isContinuation (b : UInt8) : Bool :=
  0x80 ≤ b && b ≤ 0xBF

/-- The range of the second byte of a sequence that starts with `lead`.  The
tighter bounds exclude overlong forms, surrogates and values above U+10FFFF. -/
def secondRange (lead : UInt8) : UInt8 × UInt8 :=
  if lead = 0xE0 then (0xA0, 0xBF)
  else if lead = 0xED then (0x80, 0x9F)
  else if lead = 0xF0 then (0x90, 0xBF)
  else if lead = 0xF4 then (0x80, 0x8F)
  else (0x80, 0xBF)

/-- The code point that starts with the byte `lead` and goes on in `rest`, with
the number of bytes it takes from `rest`. -/
def scalar? (lead : UInt8) (rest : Bytes) : Option (Nat × Nat) :=
  if lead < 0x80 then some (lead.toNat, 0)
  else if lead < 0xC2 || 0xF4 < lead then none
  else
    let (lo, hi) := secondRange lead
    match rest with
    | [] => none
    | b :: more =>
      if b < lo || hi < b then none
      else if lead < 0xE0 then
        some ((lead.toNat - 0xC0) * 64 + (b.toNat - 0x80), 1)
      else match more with
        | [] => none
        | c :: more' =>
          if !isContinuation c then none
          else if lead < 0xF0 then
            some (((lead.toNat - 0xE0) * 64 + (b.toNat - 0x80)) * 64 + (c.toNat - 0x80), 2)
          else match more' with
            | [] => none
            | d :: _ =>
              if !isContinuation d then none
              else some ((((lead.toNat - 0xF0) * 64 + (b.toNat - 0x80)) * 64
                + (c.toNat - 0x80)) * 64 + (d.toNat - 0x80), 3)

/-- One unit of a byte string: a code point with its bytes, or a byte that starts
none. -/
inductive Piece where
  | scalar (value : Nat) (bytes : Bytes)
  | stray (b : UInt8)
  deriving DecidableEq, Repr

/-- The bytes a unit was read from. -/
def Piece.bytes : Piece → Bytes
  | .scalar _ bs => bs
  | .stray b => [b]

/-- The units of a byte string, skipping the first `skip` bytes, which belong to
a unit already reported. -/
def piecesFrom (skip : Nat) : Bytes → List Piece
  | [] => []
  | b :: r =>
    match skip with
    | k + 1 => piecesFrom k r
    | 0 =>
      match scalar? b r with
      | none => .stray b :: piecesFrom 0 r
      | some (value, k) => .scalar value (b :: r.take k) :: piecesFrom k r

/-- The units of a byte string, in order. -/
def pieces (s : Bytes) : List Piece :=
  piecesFrom 0 s

/-- Whether every byte belongs to a valid code point. -/
def isValid (s : Bytes) : Bool :=
  (pieces s).all fun p => match p with
    | .scalar .. => true
    | .stray _ => false

/-- The UTF-8 form of the code point with number `n`, for `n` below U+0800. -/
def encodeLow (n : Nat) : Bytes :=
  if n < 0x80 then [n.toUInt8]
  else [(0xC0 + n / 64).toUInt8, (0x80 + n % 64).toUInt8]

/-- The UTF-8 form of a code point. -/
def encode (n : Nat) : Bytes :=
  if n < 0x800 then encodeLow n
  else if n < 0x10000 then
    [(0xE0 + n / 4096).toUInt8, (0x80 + n / 64 % 64).toUInt8, (0x80 + n % 64).toUInt8]
  else
    [(0xF0 + n / 262144).toUInt8, (0x80 + n / 4096 % 64).toUInt8,
      (0x80 + n / 64 % 64).toUInt8, (0x80 + n % 64).toUInt8]

/-- A single byte named in a message: the code point of that number. -/
def ofByte (b : UInt8) : Bytes :=
  encodeLow b.toNat

end TreeWat.Utf8
