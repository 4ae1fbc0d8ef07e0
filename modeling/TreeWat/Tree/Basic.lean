import TreeWat.Location
import TreeWat.Text.Quoted
import TreeWat.Tree.Kind
set_option autoImplicit false

/-!
# Tree: nodes and their shape

A tree is handed over by a front end, so its shape is not guaranteed: every kind
has a fixed layout of children, and a node that breaks it is reported as a
`ShapeError`, which blames the front end and not the user's program.

Checking a program leaves a note on nodes: a signature and the scope that owns the
name.  A note is written at most once.
-/

namespace TreeWat

/-- Names one scope of a checking run: one of the two program-wide scopes, or a
scope opened later, by its number. -/
inductive ScopeId where
  | builtins
  | globals
  | opened (number : Nat)
  deriving DecidableEq, Repr, Inhabited

/-- What checking records on a node. -/
structure Annotation where
  sig : Bytes
  scope : Option ScopeId
  deriving DecidableEq, Repr, Inhabited

/-- One vertex of a tree. -/
structure Node where
  kind : Kind
  /-- The text of an identifier or literal. -/
  attr : Bytes
  loc : Location
  note : Option Annotation
  children : List Node
  deriving Repr, Inhabited

/-! ## Shape errors -/

/-- How a node breaks the layout of its kind. -/
inductive ShapeCause where
  /-- Fewer children than the one asked for. -/
  | missingChild (needed : Int) (actual : Nat)
  /-- Not exactly the number of children the kind requires. -/
  | childCount (required : Int) (actual : Nat)
  /-- A node of another kind than the names allow. -/
  | wrongKind (allowed : List Bytes)
  /-- No node where one of the names is required. -/
  | missingNode (allowed : List Bytes)
  /-- A second note on the same node. -/
  | annotatedTwice (sig : Bytes)
  | notAnExpression
  | notAStatement
  | returnOutsideFunction
  /-- A breach stated in words. -/
  | other (text : Bytes)
  deriving DecidableEq, Repr

/-- A tree that breaks the layout of its kinds. -/
structure ShapeError where
  /-- The kind of the offending node, if there is a node. -/
  kind : Option Kind
  loc : Location
  cause : ShapeCause
  deriving DecidableEq, Repr

namespace ShapeError

/-- The name of the offending node's kind. -/
def kindText (e : ShapeError) : Bytes :=
  match e.kind with
  | some k => k.text
  | none => []

/-- Alternatives, as a phrase. -/
def alternatives (names : List Bytes) : Bytes :=
  Bytes.join (utf8 " or ") names

/-- The wording of the cause. -/
def detail (e : ShapeError) : Bytes :=
  match e.cause with
  | .missingChild needed actual =>
    e.kindText ++ utf8 " node needs at least " ++ Bytes.ofInt needed
      ++ utf8 " children, has " ++ Bytes.ofNat actual
  | .childCount required actual =>
    e.kindText ++ utf8 " node needs " ++ Bytes.ofInt required
      ++ utf8 " children, has " ++ Bytes.ofNat actual
  | .wrongKind allowed =>
    utf8 "expected " ++ alternatives allowed ++ utf8 ", got " ++ e.kindText
  | .missingNode allowed => utf8 "missing node, expected " ++ alternatives allowed
  | .annotatedTwice sig =>
    utf8 "node annotated twice (had sig=" ++ Text.quoted sig ++ utf8 ")"
  | .notAnExpression => e.kindText ++ utf8 " is not an expression"
  | .notAStatement => e.kindText ++ utf8 " is not a statement"
  | .returnOutsideFunction => utf8 "return outside of a function"
  | .other text => text

/-- The whole message. -/
def text (e : ShapeError) : Bytes :=
  utf8 "malformed AST"
    ++ (if e.loc.isKnown then utf8 " at " ++ e.loc.text else [])
    ++ (match e.kind with
      | some k => utf8 " in " ++ k.text ++ utf8 " node"
      | none => [])
    ++ utf8 ": " ++ e.detail

end ShapeError

namespace Node

/-- A node that nothing is known about beyond its text. -/
def leaf (kind : Kind) (attr : Bytes) (loc : Location) : Node :=
  ⟨kind, attr, loc, none, []⟩

/-- A node over children. -/
def branch (kind : Kind) (loc : Location) (children : List Node) : Node :=
  ⟨kind, [], loc, none, children⟩

/-- The signature noted on the node; empty without a note. -/
def sig (n : Node) : Bytes :=
  match n.note with
  | some a => a.sig
  | none => []

/-- The scope noted on the node. -/
def scope? (n : Node) : Option ScopeId :=
  n.note.bind (·.scope)

/-- A breach of layout at this node. -/
def malformed (n : Node) (cause : ShapeCause) : ShapeError :=
  ⟨some n.kind, n.loc, cause⟩

/-- The child with index `i`. -/
def child (n : Node) (i : Nat) : Except ShapeError Node :=
  match n.children[i]? with
  | some c => .ok c
  | none => .error (n.malformed (.missingChild (i + 1) n.children.length))

/-- As `child`, for an index that may be any machine word. -/
def childAt (n : Node) (i : Int64) : Except ShapeError Node :=
  if 0 ≤ i then
    match n.children[i.toInt.toNat]? with
    | some c => .ok c
    | none => .error (n.malformed (.missingChild (i + 1).toInt n.children.length))
  else .error (n.malformed (.missingChild (i + 1).toInt n.children.length))

/-- Requires the node's kind to be one of the names. -/
def expectNamed (n : Node) (names : List Bytes) : Except ShapeError Unit :=
  if names.contains n.kind.text then .ok ()
  else .error (n.malformed (.wrongKind names))

/-- Requires the node to be of one of the kinds. -/
def expect (n : Node) (kinds : List Kind) : Except ShapeError Unit :=
  if kinds.contains n.kind then .ok ()
  else .error (n.malformed (.wrongKind (kinds.map Kind.text)))

/-- Requires exactly `count` children. -/
def expectChildren (n : Node) (count : Int) : Except ShapeError Unit :=
  if (n.children.length : Int) = count then .ok ()
  else .error (n.malformed (.childCount count n.children.length))

/-- Writes the note of a node. -/
def annotate (n : Node) (sig : Bytes) (scope : Option ScopeId) : Except ShapeError Node :=
  match n.note with
  | some a => .error (n.malformed (.annotatedTwice a.sig))
  | none => .ok { n with note := some ⟨sig, scope⟩ }

mutual

/-- The node and everything below it, parents before children. -/
def preorder (n : Node) : List Node :=
  match n with
  | ⟨kind, attr, loc, note, children⟩ =>
    ⟨kind, attr, loc, note, children⟩ :: preorderAll children

/-- The nodes of a list of trees. -/
def preorderAll : List Node → List Node
  | [] => []
  | c :: r => preorder c ++ preorderAll r

end

/-- The node reached by descending through the given children. -/
def descend (n : Node) : List Int64 → Except ShapeError Node
  | [] => .ok n
  | i :: path =>
    match n.childAt i with
    | .ok c => c.descend path
    | .error e => .error e

/-- The tree with `m` in place of the node at the given path; a path that leads
nowhere changes nothing. -/
def replaceAt (n : Node) (m : Node) : List Int64 → Node
  | [] => m
  | i :: path =>
    match n.childAt i with
    | .ok c => { n with children := n.children.set i.toInt.toNat (c.replaceAt m path) }
    | .error _ => n

end Node

end TreeWat
