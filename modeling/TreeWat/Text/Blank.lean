import TreeWat.Text.Utf8
set_option autoImplicit false

/-!
# Text: white space

The code points with the property White_Space, and the text between the white space at
both ends of a text.
-/

namespace TreeWat.Text

/-- Whether a code point is white space. -/
def isBlankScalar (n : Nat) : Bool :=
  (0x09 ≤ n && n ≤ 0x0D) || n == 0x20 || n == 0x85 || n == 0xA0 || n == 0x1680
    || (0x2000 ≤ n && n ≤ 0x200A) || n == 0x2028 || n == 0x2029 || n == 0x202F
    || n == 0x205F || n == 0x3000

/-- Whether a unit of a text is white space. -/
def isBlankPiece : Utf8.Piece → Bool
  | .scalar n _ => isBlankScalar n
  | .stray _ => false

/-- The text without white space at its ends. -/
def trim (s : Bytes) : Bytes :=
  let inner := (Utf8.pieces s).dropWhile isBlankPiece
  (inner.reverse.dropWhile isBlankPiece).reverse.flatMap Utf8.Piece.bytes

end TreeWat.Text
