import TreeWat.Datum.Basic
import TreeWat.Tree.Basic
set_option autoImplicit false

/-!
# Tree: three printed forms

`format` writes a tree in the bracket notation on one line, without locations and
notes, so that reading it gives the tree back.  `dump` shows one node per line with
everything known about it.  `render` reconstructs what the user wrote, for messages
and comments.
-/

namespace TreeWat.Node

/-! ## Bracket notation -/

mutual

/-- The tree in the bracket notation. -/
def format (n : Node) : Bytes :=
  match n with
  | ⟨kind, attr, _, _, children⟩ =>
    match kind with
    | .num => utf8 "(num " ++ attr ++ utf8 ")"
    | .id => utf8 "(id " ++ Datum.printString attr ++ utf8 ")"
    | .string => utf8 "(string " ++ Datum.printString attr ++ utf8 ")"
    | kind =>
      if children.isEmpty && kind.isBare then kind.text
      else utf8 "(" ++ kind.text ++ formatAll children ++ utf8 ")"

/-- A list of trees, each with a blank in front. -/
def formatAll : List Node → Bytes
  | [] => []
  | c :: r => utf8 " " ++ format c ++ formatAll r

end

/-! ## One node per line -/

/-- The line of a single node; `tag` names the scope in its note. -/
def dumpLine (tag : ScopeId → Bytes) (n : Node) : Bytes :=
  n.kind.text
    ++ (if n.kind = .num then utf8 " " ++ n.attr
      else if n.kind.hasAttr then utf8 " " ++ Text.quoted n.attr
      else [])
    ++ (if n.loc.isKnown then
        utf8 " @" ++ Bytes.ofInt n.loc.line ++ utf8 ":" ++ Bytes.ofInt n.loc.column
      else [])
    ++ (if n.sig.isEmpty then [] else utf8 " sig=" ++ Text.quoted n.sig)
    ++ (match n.scope? with
      | some s => utf8 " scope=" ++ tag s
      | none => [])
    ++ utf8 "\n"

mutual

/-- The lines of a tree that stands at the given depth. -/
def dumpLines (tag : ScopeId → Bytes) (depth : Nat) (n : Node) : List Bytes :=
  match n with
  | ⟨kind, attr, loc, note, children⟩ =>
    (List.replicate depth (byte '\t') ++ dumpLine tag ⟨kind, attr, loc, note, children⟩)
      :: dumpAll tag (depth + 1) children

/-- The lines of several trees. -/
def dumpAll (tag : ScopeId → Bytes) (depth : Nat) : List Node → List Bytes
  | [] => []
  | c :: r => dumpLines tag depth c ++ dumpAll tag depth r

end

/-- The tree with one node per line, indented with tabs. -/
def dump (tag : ScopeId → Bytes) (n : Node) : Bytes :=
  (n.dumpLines tag 0).flatten

/-! ## Surface form -/

mutual

/-- The expression as the user wrote it.  Operators are written without
parentheses; a node that is no expression shows its kind. -/
def render (n : Node) : Bytes :=
  match n with
  | ⟨kind, attr, _, _, children⟩ =>
    match kind with
    | .id => attr
    | .num => attr
    | .string => utf8 "\"" ++ attr ++ utf8 "\""
    | .functionInvocation =>
      match children with
      | [] => utf8 "()"
      | [callee] => callee.attr ++ utf8 "()"
      | callee :: ⟨_, _, _, _, args⟩ :: _ =>
        callee.attr ++ utf8 "(" ++ Bytes.join (utf8 ", ") (renderAll args) ++ utf8 ")"
    | .binary op =>
      match children with
      | [l, r] => render l ++ utf8 " " ++ op.text ++ utf8 " " ++ render r
      | _ => op.text
    | .unary op =>
      match children with
      | [e] => (Kind.unary op).symbol ++ render e
      | _ => (Kind.unary op).text
    | kind => kind.text

/-- The surface forms of several expressions. -/
def renderAll : List Node → List Bytes
  | [] => []
  | c :: r => render c :: renderAll r

end

end TreeWat.Node
