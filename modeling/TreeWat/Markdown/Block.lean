import TreeWat.Markdown.Inline
set_option autoImplicit false

/-!
# Markdown: how blocks start

One line decides which block starts with it.  `Rest.startOf?` gives that block for what is
left of a line when the enclosing quotes and list items are taken off.  A line that
starts no block belongs to a paragraph.
-/

namespace TreeWat.Markdown

/-! ## Lines that are a block by themselves -/

/-- A run of one mark, and white space behind it. -/
def isUnderline (mark : UInt8) (s : Bytes) : Bool :=
  let t := trimEnd s
  !t.isEmpty && t.all (· == mark)

/-- Whether a line makes a heading of the paragraph in front of it. -/
def Rest.isSetextUnderline (r : Rest) : Bool :=
  let spaces := countMarks (byte ' ') r.line
  let bar := r.line.drop spaces
  r.indent ≤ 3 && (isUnderline (byte '=') bar || isUnderline (byte '-') bar)

/-- Three or more of one of the marks `*`, `-` and `_`, with blanks between them. -/
def isThematicBreak (s : Bytes) : Bool :=
  let t := s.filter fun b => !isSpace b
  [byte '*', byte '-', byte '_'].any fun m => 3 ≤ t.length && t.all (· == m)

/-- Whether what a line holds can be found by counting its blanks: the line has more bytes
than its indentation has columns. -/
def Rest.isRoomy (r : Rest) : Bool :=
  r.indent < r.line.length

/-- A heading without the number signs at its end, if a blank is in front of them. -/
def dropClosingMarks (s : Bytes) : Bytes :=
  let t := Bytes.trimEnd (· == byte '#') s
  match t.getLast? with
  | none => []
  | some b => if isSpace b then t else s

/-- The text of a heading that starts with one to six number signs; an empty heading has
none. -/
def Rest.heading? (r : Rest) : Option (List Span) :=
  let level := countMarks (byte '#') r.content
  let rest := r.drop (r.gap + level)
  if !r.isRoomy || level = 0 || 6 < level then none
  else if !rest.text.isEmpty && !((rest.text.head?.map isSpace).getD false) then none
  else
    let span := rest.span
    let text := dropClosingMarks (trimEnd span.text)
    if text.isEmpty then some [] else some [{ span with text }]

/-! ## Fences -/

/-- An open fence and what it holds so far. -/
structure Fence where
  mark : UInt8
  /-- How many marks opened it. -/
  length : Nat
  /-- The columns its content may lose. -/
  indent : Nat
  language : Bytes
  /-- The line of its first content. -/
  line : Nat
  /-- The content, last line first. -/
  body : List Bytes
  deriving DecidableEq, Repr

/-- The fence that a line opens.  A single byte behind the marks is its line break, so it
says nothing about the content; otherwise the first word there is the language. -/
def Rest.fence? (r : Rest) (number : Nat) : Option Fence :=
  match r.content with
  | [] => none
  | mark :: _ =>
    let length := countMarks mark r.content
    let rest := r.content.drop length
    let info := if 1 < rest.length then trimEnd (trimStart rest) else []
    if !(mark = byte '`' || mark = byte '~') || length < 3 || !r.isRoomy then none
    else if mark = byte '`' && info.elem (byte '`') then none
    else some ⟨mark, length, r.gap, info.takeWhile (· ≠ byte ' '), number + 1, []⟩

/-- Whether a line closes a fence. -/
def Fence.isClosedBy (f : Fence) (r : Rest) : Bool :=
  let marks := countMarks f.mark r.content
  r.indent < 4 && f.length ≤ marks && isBlank (r.content.drop marks)

/-- How many bytes a line of the content loses, and how many spaces take their place.  The
indentation of the fence is cut off.  A line that is indented less loses its blanks, and one
byte more for every column of padding among them. -/
def Fence.cut (f : Fence) (r : Rest) : Nat × Nat :=
  match cutIndent? r.start f.indent r.padding r.text with
  | some (n, excess) => (n, excess)
  | none =>
    if r.content.isEmpty || r.content.head? = some (byte '\n') then (0, 0) else (r.gap, 0)

/-- Adds a line to the content.  The first line counts from where it is cut. -/
def Fence.add (f : Fence) (r : Rest) : Fence :=
  let (lost, spaces) := f.cut r
  let line := if f.body.isEmpty then f.line + (r.text.take lost).count (byte '\n') else f.line
  { f with line, body := (List.replicate spaces (byte ' ') ++ r.text.drop lost) :: f.body }

/-! ## List items -/

/-- The marker of a list item. -/
structure Marker where
  /-- The spaces in front of it. -/
  indent : Nat
  width : Nat
  /-- Its last byte, which all items of a list share. -/
  mark : UInt8
  /-- The number of an ordered item. -/
  start? : Option Nat
  deriving DecidableEq, Repr

/-- Where the text of an item starts, counted in bytes of the line. -/
def Marker.stop (m : Marker) : Nat :=
  m.indent + m.width

/-- The marker at the front of a line, which a blank or the end of the line must follow. -/
def marker? (line : Bytes) : Option Marker :=
  let indent := countMarks (byte ' ') line
  let s := line.drop indent
  let digits := s.takeWhile Bytes.isDigit
  let found : Option Marker :=
    match s with
    | [] => none
    | b :: _ =>
      if b = byte '-' || b = byte '+' || b = byte '*' then some ⟨indent, 1, b, none⟩
      else if digits.isEmpty || 9 < digits.length then none
      else match s.drop digits.length with
        | [] => none
        | c :: _ =>
          if c = byte '.' || c = byte ')' then
            some ⟨indent, digits.length + 1, c, some (Bytes.digitsValue digits)⟩
          else none
  match found with
  | none => none
  | some m =>
    if 3 < indent then none
    else match (line.drop m.stop).head? with
      | none => some m
      | some b => if isGap b || b = byte '\n' then some m else none

/-- What a list item is given by: its marker, the indentation of its content, and what is
left of the line, unless that is blank. -/
structure Item where
  marker : Marker
  indent : Nat
  rest? : Option Rest
  deriving DecidableEq, Repr

/-- The list item at the front of a line.  Its content is indented as far as the text on the
first line, or by one column if there is no text or an indented one. -/
def Rest.item? (r : Rest) : Option Item :=
  (marker? r.line).map fun m =>
    let after := r.line.drop m.stop
    let width := indentOf m.stop after
    if isBlank after then ⟨m, m.stop + 1, none⟩
    else
      let gap := if 4 < width then 1 else width
      let rest := match cutIndent? m.stop gap 0 after with
        | some (n, excess) => (r.drop (m.stop + n)).pad excess
        | none => r
      ⟨m, m.stop + gap, some rest⟩

/-- Whether an item can interrupt a paragraph: it has content and, if it is numbered, the
number one. -/
def Item.interrupts (i : Item) : Bool :=
  i.rest?.isSome && (i.marker.start?.map (· == 1)).getD true

/-! ## Starting a block -/

/-- What a line can start. -/
inductive Start where
  | quote (rest : Rest)
  | item (i : Item)
  | rule
  | code
  | heading (text : List Span)
  | fence (f : Fence)
  | html (ending : HtmlEnd)
  deriving Repr

/-- Drops the mark of a quotation and one column behind it, if it is blank. -/
def Rest.quote? (r : Rest) : Option Rest :=
  if r.indent ≤ 3 && r.content.head? = some (byte '>') then
    let rest := r.drop (r.gap + 1)
    match rest.text with
    | [] => some rest
    | b :: _ =>
      if b = byte ' ' then some (rest.drop 1)
      else if b = byte '\t' then some ((rest.drop 1).pad (tabWidth rest.column - 1))
      else some rest
  else none

/-- The block of HTML that starts here. -/
def Rest.html? (r : Rest) (inParagraph : Bool) : Option HtmlEnd :=
  if r.isRoomy then htmlStart? inParagraph (r.line.dropWhile (· == byte ' ')) else none

/-- The block that starts here.  `inParagraph` says that a paragraph is open, and
`interrupts` that it is open at this very level. -/
def Rest.startOf? (r : Rest) (number : Nat) (inParagraph interrupts : Bool) : Option Start :=
  if r.text.isEmpty || isBlank r.line then none
  else if 4 ≤ r.indent then (if inParagraph then none else some .code)
  else if isThematicBreak r.content then some .rule
  else
    match r.item?.filter fun i => !interrupts || i.interrupts with
    | some i => some (.item i)
    | none =>
      match r.heading? with
      | some t => some (.heading t)
      | none =>
        match r.fence? number with
        | some f => some (.fence f)
        | none =>
          match r.quote? with
          | some rest => some (.quote rest)
          | none => (r.html? inParagraph).map Start.html

/-! ## Link definitions -/

/-- The rest of the line at the front of a text. -/
def firstLine (s : Bytes) : Bytes :=
  s.takeWhile (· ≠ byte '\n')

/-- What follows the first line of a text. -/
def dropLine (s : Bytes) : Bytes :=
  (s.dropWhile (· ≠ byte '\n')).drop 1

/-- A link definition in a paragraph: its label, the lines that are taken from the
paragraph for it, from `first` up to but not including `stop`, and the text behind it. -/
structure Definition where
  label : Bytes
  first : Nat
  stop : Nat
  rest : Bytes
  deriving DecidableEq, Repr

/-- The link definition at the front of the rest `s` of a paragraph whose lines have
`breaks` line breaks.  A title must end its line; if it does not but starts on a line of
its own, the definition goes without it. -/
def definition? (breaks : Nat) (s : Bytes) : Option Definition := do
  let lineOf (t : Bytes) : Nat := breaks - t.count (byte '\n')
  let s := trimStart s
  let (label, rest) ← if s.head? = some (byte '[') then readLabel? (s.drop 1) else none
  let rest ← if isBlank label then none else Bytes.after? (utf8 ":") rest
  let rest ← dropTarget? (trimStart rest)
  let endsLine := isBlank (firstLine rest)
  let plain (after : Bytes) : Option Definition :=
    if endsLine then some ⟨normalizeLabel label, lineOf s, lineOf rest + 1, after⟩ else none
  let entry := trimStart rest
  match entry with
  | [] => plain entry
  | b :: r =>
    match titleCloser? b with
    | none => plain entry
    | some closer =>
      if entry.length = rest.length then none
      else match findClosure b closer false r with
        | .stuck t => plain (dropLine t)
        | .found t =>
          if isBlank (firstLine t) then
            some ⟨normalizeLabel label, lineOf s, lineOf t + 1, t⟩
          else if endsLine then
            some ⟨normalizeLabel label, lineOf s, max (lineOf rest) (lineOf s + 1), t⟩
          else none

/-- The definitions in a paragraph, one behind the other; `fuel` bounds their number. -/
def definitions (fuel breaks : Nat) (s : Bytes) : List Definition :=
  match fuel with
  | 0 => []
  | fuel + 1 =>
    match definition? breaks s with
    | none => []
    | some d => d :: definitions fuel breaks d.rest

/-- A paragraph without the lines of its definitions.  `taken` is the number of the line
behind the last definition; lines are counted from there. -/
def withoutDefinitions (taken : Nat) (spans : List Span) : List Definition → List Span
  | [] => spans
  | d :: more =>
    withoutDefinitions d.stop (spans.take (d.first - taken) ++ spans.drop (d.stop - taken)) more

end TreeWat.Markdown
