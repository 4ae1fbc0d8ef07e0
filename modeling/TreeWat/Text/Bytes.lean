set_option autoImplicit false

/-!
# Text: byte strings

Source programs, names and generated modules are byte strings.  Nothing in the
notation requires them to be UTF-8, columns count bytes, and an escape may stand
in front of half a character, so the library never converts them to `String`.

A `Bytes` is a plain list, which gives every function here the list library's
lemmas.  Fixed wordings are written as string literals and enter through `utf8`,
which reduces in the kernel.
-/

namespace TreeWat

/-- A byte string. -/
abbrev Bytes : Type := List UInt8

/-- The bytes of a fixed wording. -/
def utf8 (s : String) : Bytes :=
  s.toList.flatMap String.utf8EncodeChar

/-- The byte of an ASCII character. -/
def byte (c : Char) : UInt8 :=
  c.toNat.toUInt8

namespace Bytes

/-! ## Character classes

The classes know ASCII only: the notations they serve admit no other byte
outside strings and comments. -/

/-- A decimal digit. -/
def isDigit (b : UInt8) : Bool :=
  byte '0' ≤ b && b ≤ byte '9'

/-- An ASCII letter. -/
def isLetter (b : UInt8) : Bool :=
  (byte 'a' ≤ b && b ≤ byte 'z') || (byte 'A' ≤ b && b ≤ byte 'Z')

/-- An ASCII capital becomes the small letter; every other byte stays. -/
def lowerByte (b : UInt8) : UInt8 :=
  if byte 'A' ≤ b && b ≤ byte 'Z' then b + 32 else b

/-- Small letters throughout, for ASCII. -/
def lower (s : Bytes) : Bytes :=
  s.map lowerByte

/-! ## Numbers -/

/-- The decimal digits of a natural number, without leading zeros. -/
def ofNat (n : Nat) : Bytes :=
  (Nat.toDigits 10 n).map byte

/-- The decimal form of an integer, with a leading minus sign if it is negative. -/
def ofInt : Int → Bytes
  | .ofNat n => ofNat n
  | .negSucc n => byte '-' :: ofNat (n + 1)

/-- One hexadecimal digit, `a` to `f` in the given case. -/
def hexDigit (upper : Bool) (n : Nat) : UInt8 :=
  if n < 10 then (48 + n).toUInt8
  else if upper then (55 + n).toUInt8
  else (87 + n).toUInt8

/-- The last `width` hexadecimal digits of `n`. -/
def ofHex (upper : Bool) : (width : Nat) → (n : Nat) → Bytes
  | 0, _ => []
  | w + 1, n => ofHex upper w (n / 16) ++ [hexDigit upper (n % 16)]

/-- The value of a run of decimal digits, most significant first. -/
def digitsValue (s : Bytes) : Nat :=
  s.foldl (fun v b => 10 * v + (b.toNat - 48)) 0

/-- A non-empty run of digits, as a number. -/
def toNat? (s : Bytes) : Option Nat :=
  if !s.isEmpty && s.all isDigit then some (digitsValue s) else none

/-- An optional sign and a non-empty run of digits, as an integer. -/
def toInt? : Bytes → Option Int
  | [] => none
  | b :: s =>
    if b = byte '-' then (toNat? s).map fun n => -(n : Int)
    else if b = byte '+' then (toNat? s).map fun n => (n : Int)
    else (toNat? (b :: s)).map fun n => (n : Int)

/-- As `toInt?`, for values that fit in a signed 64-bit word. -/
def toInt64? (s : Bytes) : Option Int :=
  match toInt? s with
  | some v => if -9223372036854775808 ≤ v ∧ v < 9223372036854775808 then some v else none
  | none => none

/-! ## Cutting and joining -/

/-- Puts `sep` between consecutive pieces. -/
def join (sep : Bytes) : List Bytes → Bytes
  | [] => []
  | [s] => s
  | s :: r => s ++ sep ++ join sep r

/-- The text split at every occurrence of the byte `sep`; there is always at
least one piece. -/
def split (sep : UInt8) : Bytes → List Bytes
  | [] => [[]]
  | b :: r =>
    if b = sep then [] :: split sep r
    else match split sep r with
      | [] => [[b]]
      | piece :: more => (b :: piece) :: more

/-- Every occurrence of the byte `old` becomes `new`. -/
def replace (old new : UInt8) (s : Bytes) : Bytes :=
  s.map fun b => if b = old then new else b

/-- `count` copies of `s`. -/
def times (count : Nat) (s : Bytes) : Bytes :=
  (List.replicate count s).flatten

/-- Whether `s` begins with `start`. -/
def startsWith (s start : Bytes) : Bool :=
  start.isPrefixOf s

/-- Whether `s` ends with `tail`. -/
def endsWith (s tail : Bytes) : Bool :=
  tail.reverse.isPrefixOf s.reverse

/-- What follows `start`, if `s` begins with it. -/
def after? (start s : Bytes) : Option Bytes :=
  if startsWith s start then some (s.drop start.length) else none

/-- `s` without `tail` at its end, if it ends so. -/
def withoutEnd (tail s : Bytes) : Bytes :=
  if endsWith s tail then s.take (s.length - tail.length) else s

/-- Whether `piece` occurs somewhere in a text. -/
def occursIn (piece : Bytes) : Bytes → Bool
  | [] => piece.isEmpty
  | b :: r => startsWith (b :: r) piece || occursIn piece r

/-- `s` without the bytes of its end that satisfy `p`. -/
def trimEnd (p : UInt8 → Bool) (s : Bytes) : Bytes :=
  (s.reverse.dropWhile p).reverse

/-- Order of byte strings, byte by byte; a proper beginning comes first. -/
def less : Bytes → Bytes → Bool
  | _, [] => false
  | [], _ :: _ => true
  | a :: r, b :: s => a < b || (a == b && less r s)

end Bytes

end TreeWat
