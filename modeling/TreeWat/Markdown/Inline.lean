import TreeWat.Markdown.Html
import TreeWat.Text.Blank
import TreeWat.Text.Folding
import TreeWat.Text.Punctuation
set_option autoImplicit false

/-!
# Markdown: the text of a heading

The plain text of a heading is what is left when the markup is taken away: the marks
of emphasis, the backquotes of code, the brackets and the target of a link.  Escapes
and entities stay as they are written, HTML tags and addresses in angle brackets
vanish, and a line break contributes nothing.

The marks of emphasis pair up by the delimiter rules: a run of marks can open if text
follows it and close if text precedes it, inner pairs bind first, and runs whose
lengths add up to a multiple of three do not pair if one of them could do both.
-/

namespace TreeWat.Markdown

/-- A run of emphasis marks. -/
structure Delimiter where
  mark : UInt8
  /-- The marks that are left. -/
  length : Nat
  /-- The marks there were. -/
  initial : Nat
  canOpen : Bool
  canClose : Bool
  deriving DecidableEq, Repr

/-- An opening bracket that may start a link. -/
structure Bracket where
  isImage : Bool
  /-- Where its mark starts in the document. -/
  start : Nat
  /-- The text behind it. -/
  inside : Bytes
  deriving DecidableEq, Repr

/-- The mark of an opening bracket. -/
def Bracket.mark (b : Bracket) : Bytes :=
  if b.isImage then utf8 "![" else utf8 "["

/-- Where the text behind the mark starts in the document. -/
def Bracket.stop (b : Bracket) : Nat :=
  b.start + b.mark.length

/-- A piece of a heading. -/
inductive Inline where
  | text (s : Bytes)
  | marks (d : Delimiter)
  /-- An opening bracket that may start a link. -/
  | bracket (b : Bracket)
  /-- A finished construct, its plain text, and whether a link is in it. -/
  | done (s : Bytes) (hasLink : Bool)
  deriving Repr

/-! ## Emphasis -/

/-- The marks that are left, as text. -/
def Delimiter.text (d : Delimiter) : Bytes :=
  List.replicate d.length d.mark

/-- How many marks a pair takes from each side; zero if the two cannot pair. -/
def Delimiter.consumption (opener closer : Delimiter) : Nat :=
  if (opener.canClose || closer.canOpen) && (opener.initial + closer.initial) % 3 == 0
      && closer.initial % 3 != 0 then 0
  else if 2 ≤ opener.length && 2 ≤ closer.length then 2
  else 1

/-- Marks that can no longer pair become text. -/
def Inline.settle : Inline → Inline
  | .marks d => .text d.text
  | i => i

/-- Pairs a closing run with the nearest run that can open, among the pieces in front
of it, last first.  Gives those pieces behind the pairing and the number of marks
taken; runs between the two become text. -/
def pairWith? (closer : Delimiter) : List Inline → Option (List Inline × Nat)
  | [] => none
  | .marks d :: rest =>
    if d.canOpen && d.mark == closer.mark && 0 < d.consumption closer then
      let n := d.consumption closer
      some (.marks { d with length := d.length - n } :: rest, n)
    else (pairWith? closer rest).map fun (before, n) => (.text d.text :: before, n)
  | i :: rest => (pairWith? closer rest).map fun (before, n) => (i :: before, n)

/-- A run with no marks left is gone. -/
def dropSpent : List Inline → List Inline
  | [] => []
  | .marks d :: rest => if d.length = 0 then dropSpent rest else .marks d :: dropSpent rest
  | i :: rest => i :: dropSpent rest

/-- Closes as many pairs as a run can; `fuel` is the number of its marks. -/
def closeRun (fuel : Nat) (d : Delimiter) (before : List Inline) : List Inline :=
  match fuel with
  | 0 => before
  | fuel + 1 =>
    if d.length = 0 then before
    else match (if d.canClose then pairWith? d before else none) with
      | some (before', n) => closeRun fuel { d with length := d.length - n } (dropSpent before')
      | none => (if d.canOpen then .marks d else .text d.text) :: before

/-- Pairs the marks of emphasis in a list of pieces. -/
def pairMarks (items : List Inline) : List Inline :=
  let paired := items.foldl (fun before i => match i with
    | .marks d => closeRun (d.length + 1) d before
    | i => i :: before) []
  paired.reverse.map Inline.settle

/-- The plain text of a piece. -/
def Inline.plain : Inline → Bytes
  | .text s => s
  | .marks d => d.text
  | .bracket b => b.mark
  | .done s _ => s

/-- The plain text of pieces whose marks have not been paired yet. -/
def plainText (items : List Inline) : Bytes :=
  (pairMarks items).flatMap Inline.plain

/-- Whether a link is among the pieces. -/
def hasLink (items : List Inline) : Bool :=
  items.any fun i => match i with
    | .done _ l => l
    | _ => false

/-! ## Links -/

/-- Drops a link target without angle brackets.  It ends at white space or at a
parenthesis that closes more than the target opened; `escaped` says that a backslash
stands in front. -/
def dropBareTarget (depth : Nat) (escaped : Bool) : Bytes → Bytes
  | [] => []
  | b :: r =>
    if escaped && isPunctuation b then dropBareTarget depth false r
    else if b = byte '(' then dropBareTarget (depth + 1) false r
    else if b = byte ')' then
      (if depth = 0 then b :: r else dropBareTarget (depth - 1) false r)
    else if isSpace b then b :: r
    else dropBareTarget depth (b = byte '\\') r

/-- Drops a link target behind its opening angle bracket; it stays on one line. -/
def dropAngledTarget? (escaped : Bool) : Bytes → Option Bytes
  | [] => none
  | b :: r =>
    if escaped && isPunctuation b then dropAngledTarget? false r
    else if b = byte '>' then some r
    else if b = byte '\n' then none
    else dropAngledTarget? (b = byte '\\') r

/-- Drops a link target. -/
def dropTarget? (s : Bytes) : Option Bytes :=
  if s.head? = some (byte '<') then dropAngledTarget? false (s.drop 1)
  else
    let rest := dropBareTarget 0 false s
    if rest.length < s.length then some rest else none

/-- Where a search for a closing mark ends. -/
inductive Closure where
  /-- Behind the mark. -/
  | found (rest : Bytes)
  /-- At another opening mark, or at the end of the text. -/
  | stuck (rest : Bytes)
  deriving DecidableEq, Repr

/-- Looks for the mark `closer`, in front of which the mark `opener` may not stand unless
it is escaped; `escaped` says that a backslash stands in front. -/
def findClosure (opener closer : UInt8) (escaped : Bool) : Bytes → Closure
  | [] => .stuck []
  | b :: r =>
    if escaped && isPunctuation b then findClosure opener closer false r
    else if b = closer then .found r
    else if b = opener then .stuck (b :: r)
    else findClosure opener closer (b = byte '\\') r

/-- The mark that closes a link title opened by `b`. -/
def titleCloser? (b : UInt8) : Option UInt8 :=
  if b = byte '"' || b = 0x27 then some b
  else if b = byte '(' then some (byte ')')
  else none

/-- Drops a link title in quotes or parentheses. -/
def dropTitle? (s : Bytes) : Option Bytes :=
  match s with
  | [] => none
  | b :: r =>
    match titleCloser? b with
    | none => none
    | some closer =>
      match findClosure b closer false r with
      | .found rest => some rest
      | .stuck _ => none

/-- Drops the target of a link, in parentheses; the text starts behind the opening
one. -/
def dropLinkTail? (s : Bytes) : Option Bytes :=
  let s := trimStart s
  if s.head? = some (byte ')') then some (s.drop 1)
  else do
    let rest := trimStart (← dropTarget? s)
    if rest.head? = some (byte ')') then some (rest.drop 1)
    else Bytes.after? (utf8 ")") (trimStart (← dropTitle? rest))

/-- Every run of white space becomes one space. -/
def mergeSpaces (afterSpace : Bool) : Bytes → Bytes
  | [] => []
  | b :: r =>
    if isSpace b then
      (if afterSpace then mergeSpaces true r else byte ' ' :: mergeSpaces true r)
    else b :: mergeSpaces false r

/-- Labels are compared without regard to case and to the amount of white space. -/
def normalizeLabel (s : Bytes) : Bytes :=
  let isEdge (b : UInt8) : Bool := b == byte ' ' || (0x09 ≤ b && b ≤ 0x0D)
  mergeSpaces false (Text.fold (Bytes.trimEnd isEdge (s.dropWhile isEdge)))

/-- The text up to a closing bracket, and what follows it. -/
def readLabel? (s : Bytes) : Option (Bytes × Bytes) :=
  match findClosure (byte '[') (byte ']') false s with
  | .found rest => some (s.take (s.length - rest.length - 1), rest)
  | .stuck _ => none

/-- Whether a text is the label of a definition; a label has at most 999 bytes. -/
def isLabel (labels : List Bytes) (s : Bytes) : Bool :=
  s.length ≤ 999 && labels.contains (normalizeLabel s)

/-- Drops what makes a link of the text between brackets: a target, a label of a
definition, or nothing if the text is such a label itself. `inside` is the text between
the brackets, and `rest` what follows the closing one. -/
def dropLinkEnd? (labels : List Bytes) (inside rest : Bytes) : Option Bytes :=
  let shortcut := if isLabel labels inside then some rest else none
  match rest with
  | b :: r =>
    if b = byte '(' then (dropLinkTail? r).or shortcut
    else if b = byte '[' then
      match readLabel? r with
      | some (label, rest') =>
        if isLabel labels (if isBlank label then inside else label) then some rest' else none
      | none => shortcut
    else shortcut
  | [] => shortcut

/-- The pieces behind the last opening bracket, that bracket, and the pieces in front
of it, all last first. -/
def splitBracket? : List Inline → Option (List Inline × Bracket × List Inline)
  | [] => none
  | .bracket b :: rest => some ([], b, rest)
  | i :: rest => (splitBracket? rest).map fun (after, b, before) => (i :: after, b, before)

/-- The distance in the document from the first open bracket to the end of the last one;
the pieces are last first. -/
def bracketReach (items : List Inline) : Nat :=
  let openers := items.filterMap fun i => match i with
    | .bracket b => some b
    | _ => none
  match openers.head?, openers.getLast? with
  | some innermost, some outermost => innermost.stop - outermost.start
  | _, _ => 0

/-! ## Scanning -/

/-- The code up to the next run of exactly `n` backquotes, skipping `skip` bytes. -/
def readCode? (n skip : Nat) : Bytes → Option Bytes
  | [] => none
  | b :: r =>
    match skip with
    | k + 1 => (readCode? n k r).map (b :: ·)
    | 0 =>
      if b = byte '`' then
        let m := countMarks (byte '`') (b :: r)
        if m = n then some [] else (readCode? n (m - 1) r).map (b :: ·)
      else (readCode? n 0 r).map (b :: ·)

/-- Code without one blank at each end, if it has both and is not all blank. -/
def trimCode (s : Bytes) : Bytes :=
  let isEdge (b : Option UInt8) : Bool := b = some (byte ' ') || b = some (byte '\n')
  if !isBlank s && isEdge s.head? && isEdge s.getLast? then (s.drop 1).take (s.length - 2)
  else s

/-- The code point behind a run of the mark `mark`; the end of the text counts as white
space, and a byte that cannot start a code point as the mark itself. -/
def scalarAfter (mark : UInt8) (s : Bytes) : Nat :=
  match s with
  | [] => 0x20
  | b :: r =>
    match Utf8.scalar? b r with
    | some (n, _) => n
    | none => if Utf8.isContinuation b then mark.toNat else 0xFFFD

/-- The run of `length` emphasis marks between the code points `before` and
`after`. -/
def delimiterOf (mark : UInt8) (length before after : Nat) : Delimiter :=
  let blankBefore := Text.isBlankScalar before
  let blankAfter := Text.isBlankScalar after
  let punctBefore := Text.isPunctuationScalar before
  let punctAfter := Text.isPunctuationScalar after
  let leftFlanking := !blankAfter && (!punctAfter || blankBefore || punctBefore)
  let rightFlanking := !blankBefore && (!punctBefore || blankAfter || punctAfter)
  if mark = byte '_' then
    ⟨mark, length, length, leftFlanking && (!rightFlanking || punctBefore),
      rightFlanking && (!leftFlanking || punctAfter)⟩
  else ⟨mark, length, length, leftFlanking, rightFlanking⟩

/-- Adds text behind the pieces read so far, last first. -/
def addText (s : Bytes) : List Inline → List Inline
  | .text t :: rest => .text (t ++ s) :: rest
  | items => .text s :: items

/-- At a line break, the text in front of it loses its white space. -/
def breakLine : List Inline → List Inline
  | .text t :: rest => .text (trimEnd t) :: rest
  | items => items

/-- What the reading of a construct gives. -/
inductive Scanned where
  /-- A construct of this many bytes, and the pieces behind it, last first. -/
  | node (items : List Inline) (length : Nat)
  /-- No construct; the pieces may have changed all the same. -/
  | nothing (items : List Inline)
  deriving Repr

/-- Reads what a closing bracket ends; `s` starts behind the bracket.  A bracket that ends
no link makes text of the last opening one, and so does one whose remaining opening brackets
reach over more than 998 bytes. -/
def scanClosing (labels : List Bytes) (items : List Inline) (s : Bytes) : Scanned :=
  match splitBracket? items with
  | none => .nothing items
  | some (after, bracket, front) =>
    let asText := Scanned.nothing (after ++ addText bracket.mark front)
    if 998 < bracketReach front then asText
    else if !bracket.isImage && hasLink after then asText
    else
      let inside := bracket.inside.take (bracket.inside.length - s.length - 1)
      match dropLinkEnd? labels inside s with
      | some rest =>
        .node (.done (plainText after.reverse) (!bracket.isImage || hasLink after) :: front)
          (s.length + 1 - rest.length)
      | none => asText

/-- Reads the construct at the front of the text `b :: r`, which starts at an offset of the
document; `before` is the code point in front of it and `items` are the pieces read so far,
last first. -/
def scanOne (labels : List Bytes) (offset before : Nat) (items : List Inline) (b : UInt8)
    (r : Bytes) : Scanned :=
  let s := b :: r
  if b = byte '`' then
    let n := countMarks b s
    match readCode? n 0 (s.drop n) with
    | some code => .node (.done (trimCode code) false :: items) (2 * n + code.length)
    | none => .node (.done (s.take n) false :: items) n
  else if b = byte '*' || b = byte '_' then
    let n := countMarks b s
    .node (.marks (delimiterOf b n before (scalarAfter b (s.drop n))) :: items) n
  else if b = byte '!' then
    if r.head? = some (byte '[') then .node (.bracket ⟨true, offset, r.drop 1⟩ :: items) 2
    else .nothing items
  else if b = byte '[' then .node (.bracket ⟨false, offset, r⟩ :: items) 1
  else if b = byte ']' then scanClosing labels items r
  else if b = byte '<' then
    match (dropAutolink? s).or (dropHtml? s) with
    | some rest => .node (.done [] false :: items) (s.length - rest.length)
    | none => .nothing items
  else .nothing items

/-- How a line ends: where a line break is, two spaces in front of it, or a backslash.
The number of bytes up to and including the break, and whether the text keeps the white
space at its end. -/
def lineEnd? (before : Nat) (s : Bytes) : Option (Nat × Bool) :=
  if Bytes.startsWith s (utf8 "\n") then some (1, false)
  else if Bytes.startsWith s (utf8 "  \n") then some (3, false)
  else if Bytes.startsWith s (utf8 "  \r\n") then some (4, false)
  else if before = 0x5C then none
  else if Bytes.startsWith s (utf8 "\\\n") then some (2, true)
  else if Bytes.startsWith s (utf8 "\\\r\n") then some (3, true)
  else none

/-- Where a heading is being read. -/
structure Place where
  /-- The offset in the document. -/
  offset : Nat
  /-- The code point in front. -/
  before : Nat
  /-- Whether a line or a construct ends here. -/
  isFresh : Bool
  /-- Whether the next mark is escaped. -/
  escaped : Bool
  /-- The lines that follow. -/
  next : List Span

/-- The place behind the byte `b`, which `r` follows. -/
def Place.move (p : Place) (b : UInt8) (r : Bytes) : Place :=
  if b = byte '\n' then
    match p.next with
    | s :: more =>
      { p with offset := s.offset, before := s.before.toNat, isFresh := true, next := more }
    | [] => { p with offset := p.offset + 1, before := b.toNat, isFresh := true }
  else
    let here := match Utf8.scalar? b r with
      | some (n, _) => n
      | none => if Utf8.isContinuation b then p.before else 0xFFFD
    { p with offset := p.offset + 1, before := here }

/-- Reads the constructs of a text, skipping the first `skip` bytes.  A mark that is escaped
starts no construct, except at the start of a line or behind another construct. -/
def scanFrom (labels : List Bytes) (place : Place) (items : List Inline) (skip : Nat) :
    Bytes → List Inline
  | [] => (breakLine items).reverse
  | b :: r =>
    let next := place.move b r
    match skip with
    | k + 1 => scanFrom labels next items k r
    | 0 =>
      match lineEnd? place.before (b :: r) with
      | some (n, keeps) =>
        scanFrom labels { next with isFresh := true }
          (.done [] false :: if keeps then items else breakLine items) (n - 1) r
      | none =>
        let tried := place.isFresh || !place.escaped
        match if tried then scanOne labels place.offset place.before items b r
          else .nothing items with
        | .node items' n => scanFrom labels { next with isFresh := true } items' (n - 1) r
        | .nothing items' =>
          let isMark := (utf8 "`*_![]<").elem b
          let escaped := place.escaped && !(tried && isMark)
          scanFrom labels
            { next with isFresh := false, escaped := !escaped && b == byte '\\' }
            (addText [b] items') 0 r

/-- The plain text of a heading, given its lines and the labels defined in the
document. -/
def headingText (labels : List Bytes) (spans : List Span) : Bytes :=
  let offset := (spans.head?.map Span.offset).getD 0
  plainText (scanFrom labels ⟨offset, 0x0A, true, false, spans.drop 1⟩ [] 0 (spanText spans))

end TreeWat.Markdown
