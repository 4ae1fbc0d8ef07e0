import TreeWat.Markdown.Line
import TreeWat.Text.Utf8
set_option autoImplicit false

/-!
# Markdown: HTML

HTML passes through a document unread, so only its extent matters: how a block of HTML
starts and ends, and how long a tag, a comment or an address in angle brackets is.
-/

namespace TreeWat.Markdown

/-! ## Tags -/

/-- Whether a byte can stand in a tag name behind its first letter. -/
def isTagByte (b : UInt8) : Bool :=
  Bytes.isLetter b || Bytes.isDigit b || b == byte '-'

/-- Drops a tag name, which starts with a letter. -/
def dropTagName? (s : Bytes) : Option Bytes :=
  match s with
  | b :: r => if Bytes.isLetter b then some (r.dropWhile isTagByte) else none
  | [] => none

/-- Whether a byte can start an attribute name. -/
def isAttributeStart (b : UInt8) : Bool :=
  Bytes.isLetter b || b == byte '_' || b == byte ':'

/-- Whether a byte can stand in an attribute name. -/
def isAttributeByte (b : UInt8) : Bool :=
  isAttributeStart b || Bytes.isDigit b || b == byte '.' || b == byte '-'

/-- Whether a byte can stand in a value without quotes. -/
def isValueByte (b : UInt8) : Bool :=
  0x20 < b && b != byte '"' && b != 0x27 && b != byte '=' && b != byte '<' && b != byte '>'
    && b != byte '`'

/-- Drops the value of an attribute. -/
def dropAttributeValue? (s : Bytes) : Option Bytes :=
  match s with
  | [] => none
  | b :: r =>
    if b = byte '"' || b = 0x27 then
      match r.dropWhile (· ≠ b) with
      | _ :: rest => some rest
      | [] => none
    else
      let value := s.takeWhile isValueByte
      if value.isEmpty then none else some (s.drop value.length)

/-- Drops attributes, each behind white space; `fuel` bounds their number. -/
def dropAttributes? (fuel : Nat) (s : Bytes) : Option Bytes :=
  match fuel with
  | 0 => some s
  | fuel + 1 =>
    let s' := trimStart s
    match s' with
    | b :: r =>
      if isAttributeStart b && s'.length < s.length then
        let rest := r.dropWhile isAttributeByte
        match trimStart rest with
        | e :: more =>
          if e = byte '=' then
            match dropAttributeValue? (trimStart more) with
            | some rest' => dropAttributes? fuel rest'
            | none => none
          else dropAttributes? fuel rest
        | [] => dropAttributes? fuel rest
      else some s
    | [] => some s

/-! ## HTML inside a text -/

/-- Drops the blanks and line breaks in front of the end of a tag. -/
def dropTagSpace : Bytes → Bytes
  | [] => []
  | b :: r =>
    if b = byte ' ' || b = byte '\t' || b = byte '\n' then dropTagSpace r
    else if b = byte '\r' && r.head? = some (byte '\n') then dropTagSpace r
    else b :: r

/-- Drops an opening tag behind its bracket. -/
def dropOpenTag? (s : Bytes) : Option Bytes := do
  let rest ← dropTagName? s
  let rest ← dropAttributes? rest.length rest
  let rest := dropTagSpace rest
  Bytes.after? (utf8 ">") (if rest.head? = some (byte '/') then rest.drop 1 else rest)

/-- Drops a closing tag behind its bracket and slash. -/
def dropCloseTag? (s : Bytes) : Option Bytes := do
  let rest ← dropTagName? s
  Bytes.after? (utf8 ">") (dropTagSpace rest)

/-- What follows the first occurrence of `mark`. -/
def dropThrough? (mark : Bytes) : Bytes → Option Bytes
  | [] => none
  | b :: r =>
    if Bytes.startsWith (b :: r) mark then some ((b :: r).drop mark.length)
    else dropThrough? mark r

/-- The part of a text in front of the first stray byte or replacement character.  Tags
reach no further. -/
def legible (s : Bytes) : Bytes :=
  ((Utf8.pieces s).takeWhile fun p => match p with
    | .scalar n _ => n != 0xFFFD
    | .stray _ => false).flatMap Utf8.Piece.bytes

/-- Drops a tag, of which `inner` is what follows its bracket. -/
def dropTag? (read : Bytes → Option Bytes) (inner : Bytes) : Option Bytes :=
  let seen := legible inner
  (read seen).map fun rest => inner.drop (seen.length - rest.length)

/-- Whether a text starts with a capital letter. -/
def startsCapital (s : Bytes) : Bool :=
  (s.head?.map fun b => byte 'A' ≤ b && b ≤ byte 'Z').getD false

/-- Drops a piece of HTML that starts with an angle bracket.  The end of an instruction, a
declaration or a section of characters is looked for from its very first byte on. -/
def dropHtml? (s : Bytes) : Option Bytes :=
  let inner := s.drop 1
  if Bytes.startsWith s (utf8 "<!-->") then some (s.drop 5)
  else if Bytes.startsWith s (utf8 "<!--->") then some (s.drop 6)
  else if Bytes.startsWith s (utf8 "<!--") then dropThrough? (utf8 "-->") (s.drop 4)
  else if Bytes.startsWith s (utf8 "<?") then dropThrough? (utf8 "?>") s
  else if Bytes.startsWith s (utf8 "<![CDATA[") then dropThrough? (utf8 "]]>") s
  else if Bytes.startsWith s (utf8 "<!") then
    if startsCapital (s.drop 2) then dropThrough? (utf8 ">") s else none
  else if Bytes.startsWith s (utf8 "</") then dropTag? dropCloseTag? (s.drop 2)
  else dropTag? dropOpenTag? inner

/-! ## Addresses -/

/-- Drops a label of a host name: up to 63 letters, digits and hyphens, neither the first
nor the last of which is a hyphen. -/
def dropHostLabel? (s : Bytes) : Option Bytes :=
  let isWord (b : UInt8) : Bool := Bytes.isLetter b || Bytes.isDigit b
  let label := Bytes.trimEnd (· == byte '-') ((s.take 63).takeWhile isTagByte)
  if (s.head?.map isWord).getD false then some (s.drop label.length) else none

/-- Drops more labels of a host name, each behind a dot; `fuel` bounds their number. -/
def dropHostLabels (fuel : Nat) (s : Bytes) : Bytes :=
  match fuel with
  | 0 => s
  | fuel + 1 =>
    if s.head? = some (byte '.') then
      match dropHostLabel? (s.drop 1) with
      | some rest => dropHostLabels fuel rest
      | none => s
    else s

/-- Drops an address for mail. -/
def dropMail? (s : Bytes) : Option Bytes := do
  let user := s.takeWhile fun b =>
    Bytes.isLetter b || Bytes.isDigit b || (utf8 ".!#$%&'*+/=?^_`\x7b|\x7d~-").elem b
  let host ← if user.isEmpty then none else Bytes.after? (utf8 "@") (s.drop user.length)
  let rest ← dropHostLabel? host
  some (dropHostLabels rest.length rest)

/-- Drops a link: a scheme of 2 to 33 bytes, a colon, and anything without blanks. -/
def dropLink? (s : Bytes) : Option Bytes := do
  let scheme := s.takeWhile fun b =>
    Bytes.isLetter b || Bytes.isDigit b || b == byte '+' || b == byte '.' || b == byte '-'
  let isScheme := (s.head?.map Bytes.isLetter).getD false && 2 ≤ scheme.length
    && scheme.length ≤ 33
  let rest ← if isScheme then Bytes.after? (utf8 ":") (s.drop scheme.length) else none
  some (rest.dropWhile fun b => 0x20 < b && b != byte '<' && b != byte '>')

/-- Drops an address in angle brackets. -/
def dropAutolink? (s : Bytes) : Option Bytes := do
  let inner := s.drop 1
  let rest ← (dropMail? inner).or (dropLink? inner)
  Bytes.after? (utf8 ">") rest

/-! ## Blocks of HTML -/

/-- How a block of HTML ends. -/
inductive HtmlEnd where
  /-- In the line that closes an element whose content is not read. -/
  | rawTag
  /-- In the line that holds this text. -/
  | text (mark : Bytes)
  /-- In front of an empty line. -/
  | blankLine
  deriving DecidableEq, Repr

/-- Names of elements whose content is not read at all. -/
def rawElements : List Bytes :=
  [utf8 "script", utf8 "pre", utf8 "style", utf8 "textarea"]

/-- Names of elements that make a block. -/
def blockElements : List Bytes :=
  ["address", "article", "aside", "base", "basefont", "blockquote", "body", "caption",
    "center", "col", "colgroup", "dd", "details", "dialog", "dir", "div", "dl", "dt",
    "fieldset", "figcaption", "figure", "footer", "form", "frame", "frameset", "h1", "h2",
    "h3", "h4", "h5", "h6", "head", "header", "hr", "html", "iframe", "legend", "li", "link",
    "main", "menu", "menuitem", "meta", "nav", "noframes", "ol", "optgroup", "option", "p",
    "param", "search", "section", "summary", "table", "tbody", "td", "tfoot", "th", "thead",
    "title", "tr", "track", "ul"].map utf8

/-- Small letters throughout, and the long s (U+017F) as the letter it is a form of. -/
def caseless : Bytes → Bytes
  | 0xC5 :: 0xBF :: r => byte 's' :: caseless r
  | b :: r => Bytes.lowerByte b :: caseless r
  | [] => []

/-- Whether a text starts an element whose content is not read: behind the name comes white
space, the end of the tag or the end of the text. -/
def startsRaw (s : Bytes) : Bool :=
  rawElements.any fun name =>
    match Bytes.after? (byte '<' :: name) (caseless s) with
    | none => false
    | some [] => true
    | some (b :: r) =>
      isSpace b || b == 0x0C || b == byte '>' || Bytes.startsWith (b :: r) (utf8 "/>")

/-- Whether nothing is left of a line but its line break. -/
def isLineEnd (s : Bytes) : Bool :=
  s.isEmpty || s == utf8 "\n" || s == utf8 "\r\n"

/-- What follows the slash of a closing tag and the spaces behind it, or the bracket of an
opening one. -/
def tagStart (s : Bytes) : Bytes :=
  if Bytes.startsWith s (utf8 "</") then (s.drop 2).dropWhile (· == byte ' ') else s.drop 1

/-- Whether a line starts with the tag of an element that makes a block. -/
def startsBlockTag (s : Bytes) : Bool :=
  match dropTagName? (tagStart s) with
  | none => false
  | some rest =>
    let name := (tagStart s).take ((tagStart s).length - rest.length)
    blockElements.contains (Bytes.lower name)
      && (isLineEnd rest || rest.head? = some (byte ' ') || rest.head? = some (byte '>')
        || Bytes.startsWith rest (utf8 "/>"))

/-- The name of the tag that is alone on a line, in small letters, and whether it has
attributes. -/
def loneTag? (s : Bytes) : Option (Bytes × Bool) := do
  let rest ← dropTagName? (tagStart s)
  let name := (tagStart s).take ((tagStart s).length - rest.length)
  let rest' ← dropAttributes? rest.length rest
  let tail := rest'.dropWhile (· == byte ' ')
  let tail ← (Bytes.after? (utf8 ">") tail).or (Bytes.after? (utf8 "/>") tail)
  if isLineEnd (tail.dropWhile (· == byte ' ')) then
    some (Bytes.lower name, rest'.length < rest.length)
  else none

/-- Whether a tag, alone on its line, starts a block.  A closing tag has no attributes. -/
def startsLoneTag (inParagraph : Bool) (s : Bytes) : Bool :=
  let isClosing := Bytes.startsWith s (utf8 "</") && (s.drop 2).head? ≠ some (byte ' ')
  match loneTag? s with
  | none => false
  | some (name, hasAttributes) =>
    blockElements.contains name
      || !([utf8 "script", utf8 "style", utf8 "pre"].contains name || inParagraph
        || (isClosing && hasAttributes))

/-- How a block of HTML that starts with this text ends; `none` if none starts here.
A tag of an unknown element, alone on its line, cannot interrupt a paragraph. -/
def htmlStart? (inParagraph : Bool) (s : Bytes) : Option HtmlEnd :=
  if s.head? ≠ some (byte '<') then none
  else if startsRaw s then some .rawTag
  else if Bytes.startsWith s (utf8 "<!--") then some (.text (utf8 "-->"))
  else if Bytes.startsWith s (utf8 "<?") then some (.text (utf8 "?>"))
  else if Bytes.startsWith s (utf8 "<!") && startsCapital (s.drop 2) then
    some (.text (utf8 ">"))
  else if Bytes.startsWith s (utf8 "<![CDATA[") then some (.text (utf8 "]]>"))
  else if startsLoneTag inParagraph s || startsBlockTag s then some .blankLine
  else none

/-- Whether a line ends the block of HTML it belongs to. -/
def HtmlEnd.isMet (e : HtmlEnd) (line : Bytes) : Bool :=
  match e with
  | .rawTag => rawElements.any fun n =>
      Bytes.occursIn (utf8 "</" ++ n ++ utf8 ">") (caseless line)
  | .text mark => Bytes.occursIn mark line
  | .blankLine => isBlank line

end TreeWat.Markdown
