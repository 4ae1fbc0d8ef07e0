import TreeWat.Text.Printable
import TreeWat.Text.Utf8
set_option autoImplicit false

/-!
# Text: quoted form

Names and literals appear in messages between double quotes, in a form that fits
on one line and shows every byte.  A printable code point stands for itself; a
quote or backslash gets a backslash; the seven usual control characters have
letters; other controls and stray bytes are written as two hexadecimal digits and
other code points as four or eight.
-/

namespace TreeWat.Text

/-- The letter that names a control character in the quoted form. -/
def controlLetter? (n : Nat) : Option Char :=
  match n with
  | 0x07 => some 'a'
  | 0x08 => some 'b'
  | 0x0C => some 'f'
  | 0x0A => some 'n'
  | 0x0D => some 'r'
  | 0x09 => some 't'
  | 0x0B => some 'v'
  | _ => none

/-- The quoted form of one unit. -/
def quotedPiece : Utf8.Piece → Bytes
  | .stray b => utf8 "\\x" ++ Bytes.ofHex false 2 b.toNat
  | .scalar n bs =>
    if n = 0x22 ∨ n = 0x5C then byte '\\' :: bs
    else if isPrintable n then bs
    else match controlLetter? n with
      | some c => [byte '\\', byte c]
      | none =>
        if n < 0x20 ∨ n = 0x7F then utf8 "\\x" ++ Bytes.ofHex false 2 n
        else if n < 0x10000 then utf8 "\\u" ++ Bytes.ofHex false 4 n
        else utf8 "\\U" ++ Bytes.ofHex false 8 n

/-- The text between double quotes, every unit in its quoted form. -/
def quoted (s : Bytes) : Bytes :=
  byte '"' :: (Utf8.pieces s).flatMap quotedPiece ++ [byte '"']

end TreeWat.Text
