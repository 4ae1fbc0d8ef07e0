import TreeWat.Markdown.Block
set_option autoImplicit false

/-!
# Markdown: documents

A document is read line by line.  `Page` holds the quotes and list items that are open,
the block that is open inside them, and what has been read; `Page.step` takes one
line.  Of the blocks only headings and fences are kept, in the order of the document,
wherever they are nested: `sections` gives them as a list.
-/

namespace TreeWat.Markdown

/-- A heading or a fence, with the line of its first content. -/
inductive Section where
  | heading (title : Bytes) (line : Nat)
  | fence (language body : Bytes) (line : Nat)
  deriving DecidableEq, Repr

/-- A heading or a fence as it stands in the document: the title of a heading still has its
markup. -/
inductive RawSection where
  | heading (title : List Span) (line : Nat)
  | fence (language body : Bytes) (line : Nat)
  deriving DecidableEq, Repr

/-- A block that holds other blocks. -/
inductive Container where
  | quote
  /-- An item of a list with the given mark, the indentation of its content, and whether
  nothing is in it yet. -/
  | item (mark : UInt8) (indent : Nat) (isEmpty : Bool)
  deriving DecidableEq, Repr

/-- The innermost open block. -/
inductive Leaf where
  | none
  /-- A paragraph, the number of its first line, and its lines, last first. -/
  | paragraph (line : Nat) (spans : List Span)
  | fence (f : Fence)
  | code
  | html (ending : HtmlEnd)
  deriving Repr

/-- A document that is being read. -/
structure Page where
  /-- Outermost first. -/
  containers : List Container := []
  leaf : Leaf := .none
  /-- Whether an empty line has followed a list item without content, and no other item has
  been opened since. -/
  afterEmptyItem : Bool := false
  /-- What has been read, last first. -/
  sections : List RawSection := []
  /-- The labels of the link definitions. -/
  labels : List Bytes := []
  deriving Repr

/-! ## Closing -/

/-- The content of a fence that ends.  An empty one has no line of its own. -/
def Fence.finish (f : Fence) : RawSection :=
  .fence f.language f.body.reverse.flatten (if f.body.isEmpty then 1 else f.line)

/-- A paragraph that ends: the labels it defines, the number of the line where the rest
of it starts, and that rest. -/
def finishParagraph (line : Nat) (spans : List Span) : List Bytes × Nat × List Span :=
  let spans := trimLast spans.reverse
  let text := spanText spans
  let found := definitions text.length (text.count (byte '\n')) text
  let rest := withoutDefinitions 0 spans found
  let skipped := match rest.head? with
    | some s => (spans.takeWhile (· ≠ s)).length
    | none => 0
  (found.map Definition.label, line + skipped, rest)

/-- Closes the innermost block. -/
def Page.closeLeaf (p : Page) : Page :=
  match p.leaf with
  | .paragraph line spans =>
    { p with leaf := .none, labels := p.labels ++ (finishParagraph line spans).1 }
  | .fence f => { p with leaf := .none, sections := f.finish :: p.sections }
  | _ => { p with leaf := .none }

/-! ## Going on with containers -/

/-- What a line means for an open container. -/
inductive Continuation where
  /-- The container goes on, and this is left of the line. -/
  | goesOn (rest : Rest)
  | ends
  /-- The list goes on with another item. -/
  | nextItem
  deriving DecidableEq, Repr

/-- What a line means for a container.  A list ends at an item with another mark.  An item
with the same mark is the next one of the list, unless it is indented as the content of an
item that is still empty.  `afterEmptyItem` says that an empty line has followed an empty
item, which then gets no content any more. -/
def Container.continuation (c : Container) (afterEmptyItem : Bool) (r : Rest) : Continuation :=
  match c with
  | .quote =>
    match r.quote? with
    | some rest => .goesOn rest
    | none => .ends
  | .item mark indent isEmpty =>
    if isBlank r.line then .goesOn r.lineEnd
    else
      let another := if (r.indent < indent || isEmpty) && r.indent < 4 then marker? r.line
        else none
      match another with
      | some m =>
        if m.mark ≠ mark || isThematicBreak r.content then .ends
        else if r.indent < indent || (isEmpty && afterEmptyItem) then .nextItem
        else .goesOn (r.dropIndent indent)
      | none =>
        if r.indent < indent || afterEmptyItem then .ends else .goesOn (r.dropIndent indent)

/-- Whether a line is an empty one inside a list item without content. -/
def Container.isLeftEmpty (c : Container) (r : Rest) : Bool :=
  match c with
  | .quote => false
  | .item _ _ isEmpty => isEmpty && isBlank r.line

/-- What a line means for all open containers. -/
structure Matched where
  /-- The containers that go on, outermost first. -/
  containers : List Container
  /-- What the line means for the first that does not; all go on if it says so. -/
  last : Continuation
  /-- What is left of the line. -/
  rest : Rest
  afterEmptyItem : Bool

/-- Takes the marks of the open containers off a line, outermost first, as far as it goes on
with them. -/
def matchContainers (afterEmptyItem : Bool) : List Container → Rest → Matched
  | [], r => ⟨[], .goesOn r, r, afterEmptyItem⟩
  | c :: cs, r =>
    match c.continuation afterEmptyItem r with
    | .goesOn r' =>
      let m := matchContainers (afterEmptyItem || c.isLeftEmpty r) cs r'
      { m with containers := c :: m.containers }
    | e => ⟨[], e, r, afterEmptyItem⟩

/-! ## Opening blocks -/

/-- The innermost container is no longer empty. -/
def occupy : List Container → List Container
  | [] => []
  | [.item mark indent _] => [.item mark indent false]
  | c :: cs => c :: occupy cs

/-- Opens a container inside the innermost one. -/
def Page.enter (p : Page) (c : Container) : Page :=
  { p with containers := occupy p.containers ++ [c] }

/-- Opens a list item. -/
def Page.enterItem (p : Page) (i : Item) : Page :=
  { p.enter (.item i.marker.mark i.indent true) with afterEmptyItem := false }

/-- Puts a block into the innermost container. -/
def Page.put (p : Page) (leaf : Leaf) : Page :=
  { p with containers := occupy p.containers, leaf }

/-- The containers that the rest of a line opens, and the block inside the last of
them; `fuel` bounds the number of containers. -/
def Page.openBlocks (p : Page) (fuel number : Nat) (r : Rest) : Page :=
  let paragraph : Page :=
    if r.text.isEmpty || isBlank r.line then p else p.put (.paragraph number [r.span])
  match fuel with
  | 0 => paragraph
  | fuel + 1 =>
    match r.startOf? number false false with
    | none => paragraph
    | some (.quote rest) => Page.openBlocks (p.enter .quote) fuel number rest
    | some (.item i) =>
      match i.rest? with
      | some rest => Page.openBlocks (p.enterItem i) fuel number rest
      | none => p.enterItem i
    | some .rule => p.put .none
    | some .code => p.put .code
    | some (.heading text) =>
      let line := if text.isEmpty then 1 else number
      { p.put .none with sections := .heading text line :: p.sections }
    | some (.fence f) => p.put (.fence f)
    | some (.html ending) =>
      p.put (if ending.isMet r.line then .none else .html ending)

/-- Opens what the rest of a line starts, when none of the open blocks but the containers
goes on. -/
def Page.fresh (p : Page) (m : Matched) (number : Nat) : Page :=
  let p' := { p.closeLeaf with containers := m.containers, afterEmptyItem := m.afterEmptyItem }
  let fuel := m.rest.line.length + 1
  match m.last with
  | .nextItem =>
    match m.rest.item? with
    | none => p'
    | some i =>
      match i.rest? with
      | some rest => (p'.enterItem i).openBlocks fuel number rest
      | none => p'.enterItem i
  | _ => p'.openBlocks fuel number m.rest

/-! ## One line -/

/-- Whether all open containers go on. -/
def Matched.isAll (m : Matched) : Bool :=
  match m.last with
  | .goesOn _ => true
  | _ => false

/-- Whether a line opens another item of an open list. -/
def Matched.isNextItem (m : Matched) : Bool :=
  match m.last with
  | .nextItem => true
  | _ => false

/-- A line while a paragraph is open: it may make a heading of the paragraph, start
another block, go on with the paragraph, or end it.  A paragraph that holds nothing but
definitions makes no heading. -/
def Page.stepParagraph (p : Page) (m : Matched) (number : Nat) (line : Nat)
    (spans : List Span) : Page :=
  let r := m.rest
  if m.isNextItem || r.text.isEmpty || isBlank r.line then p.fresh m number
  else if m.isAll && r.isSetextUnderline then
    let (labels, start, rest) := finishParagraph line spans
    if rest.isEmpty then p.fresh m number
    else
      { p with leaf := .none, sections := .heading rest start :: p.sections,
               labels := p.labels ++ labels }
  else if (r.startOf? number true m.isAll).isSome then p.fresh m number
  else { p with leaf := .paragraph line (r.span :: spans) }

/-- Reads one line, which starts at an offset of the document. -/
def Page.step (p : Page) (number offset : Nat) (line : Bytes) : Page :=
  let m := matchContainers p.afterEmptyItem p.containers (Rest.ofLine offset line)
  let r := m.rest
  let on : Page := { p with containers := m.containers, afterEmptyItem := m.afterEmptyItem }
  match p.leaf, m.isAll && !r.text.isEmpty with
  | .fence f, true =>
    if f.isClosedBy r then on.closeLeaf else { on with leaf := .fence (f.add r) }
  | .code, true => if isBlank r.line || 4 ≤ r.indent then on else p.fresh m number
  | .html ending, true =>
    { on with leaf := if ending.isMet r.line then .none else .html ending }
  | .paragraph start spans, _ => p.stepParagraph m number start spans
  | _, _ => p.fresh m number

/-- Reads lines, the first of which has the given number and offset. -/
def Page.steps (p : Page) (number offset : Nat) : List Bytes → Page
  | [] => p.closeLeaf
  | l :: ls => (p.step number offset l).steps (number + 1) (offset + l.length) ls

/-- The headings and fences of a document, in order. -/
def sections (document : Bytes) : List Section :=
  let p := Page.steps {} 1 0 (lines document)
  p.sections.reverse.map fun s => match s with
    | .heading title line => .heading (headingText p.labels title) line
    | .fence language body line => .fence language body line

end TreeWat.Markdown
