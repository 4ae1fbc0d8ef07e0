import TreeWat.Text.Bytes
set_option autoImplicit false

/-!
# Markdown: lines and columns

Block structure is a matter of indentation, and indentation is measured in columns: a
tab reaches to the next multiple of four.  `Rest` is what is left of a line when the
marks of the enclosing blocks are taken off.  Such a mark may end in the middle of a
tab; the columns that are left of the tab are the padding of the rest, and they count
as spaces.

A `Span` is a piece of a line that a paragraph or a heading keeps.
-/

namespace TreeWat.Markdown

/-- White space, line breaks included. -/
def isSpace (b : UInt8) : Bool :=
  b == byte ' ' || b == byte '\t' || b == byte '\n' || b == byte '\r'

/-- White space inside a line that makes its indentation. -/
def isGap (b : UInt8) : Bool :=
  b == byte ' ' || b == byte '\t'

/-- Whether a text holds nothing but white space. -/
def isBlank (s : Bytes) : Bool :=
  s.all isSpace

/-- The text without white space in front. -/
def trimStart (s : Bytes) : Bytes :=
  s.dropWhile isSpace

/-- The text without white space at its end. -/
def trimEnd (s : Bytes) : Bytes :=
  Bytes.trimEnd isSpace s

/-- ASCII punctuation. -/
def isPunctuation (b : UInt8) : Bool :=
  (0x21 ≤ b && b ≤ 0x2F) || (0x3A ≤ b && b ≤ 0x40) || (0x5B ≤ b && b ≤ 0x60)
    || (0x7B ≤ b && b ≤ 0x7E)

/-- How many of the first bytes are `mark`. -/
def countMarks (mark : UInt8) (s : Bytes) : Nat :=
  (s.takeWhile (· = mark)).length

/-- The lines of a text, each with its line break. -/
def lines : Bytes → List Bytes
  | [] => []
  | b :: r =>
    if b = byte '\n' then [b] :: lines r
    else match lines r with
      | [] => [[b]]
      | l :: more => (b :: l) :: more

/-! ## Indentation -/

/-- The columns that a tab takes. -/
def tabWidth (column : Nat) : Nat :=
  4 - column % 4

/-- The width in columns of the blanks in front of a text that starts at a column. -/
def indentOf (column : Nat) : Bytes → Nat
  | [] => 0
  | b :: r =>
    if b = byte ' ' then indentOf (column + 1) r + 1
    else if b = byte '\t' then indentOf (column + tabWidth column) r + tabWidth column
    else 0

/-- How many bytes of a text make an indentation of `width` columns, `seen` of which are
taken already, and how many columns the last of them has too many; `none` if the
indentation is smaller.  The text starts `seen` columns behind `column`. -/
def cutIndent? (column width seen : Nat) : Bytes → Option (Nat × Nat)
  | [] => if width ≤ seen then some (0, seen - width) else none
  | b :: r =>
    if width ≤ seen then some (0, seen - width)
    else if b = byte ' ' then
      (cutIndent? column width (seen + 1) r).map fun (n, excess) => (n + 1, excess)
    else if b = byte '\t' then
      (cutIndent? column width (seen + tabWidth (column + seen)) r).map fun (n, excess) =>
        (n + 1, excess)
    else none

/-! ## What is left of a line -/

/-- What is left of a line. -/
structure Rest where
  /-- Where the text starts in the document. -/
  offset : Nat
  /-- The byte in front of the text. -/
  before : UInt8
  /-- The column where the text starts. -/
  column : Nat
  /-- The columns in front of the text that are left of a tab. -/
  padding : Nat
  text : Bytes
  deriving DecidableEq, Repr

/-- A whole line, which starts at an offset of the document. -/
def Rest.ofLine (offset : Nat) (line : Bytes) : Rest :=
  ⟨offset, byte '\n', 0, 0, line⟩

/-- The text behind its padding. -/
def Rest.line (r : Rest) : Bytes :=
  List.replicate r.padding (byte ' ') ++ r.text

/-- The column where the padding starts. -/
def Rest.start (r : Rest) : Nat :=
  r.column - r.padding

/-- The indentation of the rest of a line. -/
def Rest.indent (r : Rest) : Nat :=
  indentOf r.start r.line

/-- How many blanks are in front. -/
def Rest.gap (r : Rest) : Nat :=
  (r.line.takeWhile isGap).length

/-- The line without the blanks in front. -/
def Rest.content (r : Rest) : Bytes :=
  r.text.dropWhile isGap

/-- Takes `n` bytes off a text without padding. -/
def dropBytes (n offset : Nat) (before : UInt8) (column : Nat) : Bytes → Rest
  | [] => ⟨offset, before, column, 0, []⟩
  | b :: r =>
    match n with
    | 0 => ⟨offset, before, column, 0, b :: r⟩
    | k + 1 =>
      dropBytes k (offset + 1) b (column + if b = byte '\t' then tabWidth column else 1) r

/-- Takes `n` bytes off a line; every column of padding counts as one. -/
def Rest.drop (r : Rest) (n : Nat) : Rest :=
  if n ≤ r.padding then { r with padding := r.padding - n }
  else dropBytes (n - r.padding) r.offset r.before r.column r.text

/-- Gives a line at least `n` columns of padding. -/
def Rest.pad (r : Rest) (n : Nat) : Rest :=
  { r with padding := max r.padding n }

/-- Takes an indentation of `width` columns off a line that has it. -/
def Rest.dropIndent (r : Rest) (width : Nat) : Rest :=
  match cutIndent? r.start width 0 r.line with
  | some (n, excess) => (r.drop n).pad excess
  | none => r

/-- The line break at the end of a line; nothing, if the document ends without one. -/
def Rest.lineEnd (r : Rest) : Rest :=
  let stop := if r.text.getLast? = some (byte '\n') then r.text.length - 1 else r.text.length
  dropBytes stop r.offset r.before r.column r.text

/-! ## Spans -/

/-- A piece of a line. -/
structure Span where
  /-- Where it starts in the document. -/
  offset : Nat
  /-- The byte in front of it. -/
  before : UInt8
  text : Bytes
  deriving DecidableEq, Repr

/-- What is left of a line, without white space in front. -/
def Rest.span (r : Rest) : Span :=
  let t := dropBytes (r.text.takeWhile isSpace).length r.offset r.before r.column r.text
  ⟨t.offset, t.before, t.text⟩

/-- The text of spans that follow each other. -/
def spanText (spans : List Span) : Bytes :=
  spans.flatMap Span.text

/-- The spans without the white space at the end of the last one. -/
def trimLast : List Span → List Span
  | [] => []
  | [s] => [{ s with text := trimEnd s.text }]
  | s :: rest => s :: trimLast rest

end TreeWat.Markdown
