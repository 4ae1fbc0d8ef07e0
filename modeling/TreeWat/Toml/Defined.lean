import TreeWat.Toml.Reader
set_option autoImplicit false

/-!
# Toml: each key once

A key may be defined once.  A dotted key defines the tables on its way, which belong
to the table in force and cannot be opened by a heading afterwards; a heading defines
the tables on its way as well, and those may still get a heading of their own.  What
was given a value cannot be extended.

`Known` is the tree of what has been defined; `Defined` adds the path of the table in
force.
-/

namespace TreeWat.Toml

/-- What a key was defined as. -/
inductive Kind where
  | value
  | table
  | arrayTable
  deriving DecidableEq, Repr

/-- How a key was defined. -/
structure Definition where
  kind : Kind
  /-- Whether the table has had its heading, or can have none. -/
  closed : Bool
  /-- Whether a dotted key in the table in force defined it. -/
  dotted : Bool
  deriving DecidableEq, Repr

/-- A key that has been defined, and the keys below it. -/
inductive Known where
  | mk (definition : Definition) (parts : List (Bytes × Known))

namespace Known

/-- How a key was defined. -/
def definition : Known → Definition
  | .mk d _ => d

/-- The keys below a key. -/
def parts : Known → List (Bytes × Known)
  | .mk _ ps => ps

/-- A key with nothing below it. -/
def leaf (kind : Kind) (closed dotted : Bool) : Known :=
  .mk ⟨kind, closed, dotted⟩ []

/-- The root of a file. -/
def root : Known :=
  leaf .table true false

/-- The key `k` below a key. -/
def find? (x : Known) (k : Bytes) : Option Known :=
  x.parts.lookup k

/-- Puts the key `k` below a key, in place of what was there. -/
def insert (x : Known) (k : Bytes) (y : Known) : Known :=
  .mk x.definition ((k, y) :: x.parts.filter (fun p => p.1 ≠ k))

/-- Changes the key with the given path, which has been defined. -/
def modify? (f : Known → Option Known) : Known → List Bytes → Option Known
  | x, [] => f x
  | x, k :: rest => do
    let y ← x.find? k
    some (x.insert k (← modify? f y rest))

/-- Follows a heading's path up to its last part, defining tables on the way, and changes
that part: `f` gets it, or `none` if it is new. -/
def walk? (f : Option Known → Option Known) : Known → List Bytes → Option Known
  | _, [] => none
  | x, [k] => (f (x.find? k)).map (x.insert k)
  | x, k :: rest =>
    match x.find? k with
    | none => (walk? f (leaf .table false false) rest).map (x.insert k)
    | some y =>
      if y.definition.kind = .value then none else (walk? f y rest).map (x.insert k)

/-- Defines a dotted key below a key. -/
def dotted? : Known → List Bytes → Option Known
  | _, [] => none
  | x, [k] =>
    match x.find? k with
    | none => some (x.insert k (leaf .value false true))
    | some _ => none
  | x, k :: rest =>
    match x.find? k with
    | none => (dotted? (leaf .table false true) rest).map (x.insert k)
    | some y =>
      if y.definition.kind = .table && !y.definition.closed then
        (dotted? y rest).map (x.insert k)
      else none

mutual

/-- The dotted keys below a key are closed. -/
def settle : Known → Known
  | .mk d ps => .mk d (settleParts ps)

/-- The same for the keys in a list, and the keys below them. -/
def settleParts : List (Bytes × Known) → List (Bytes × Known)
  | [] => []
  | (k, .mk d ps) :: rest =>
    (k, .mk (if d.dotted then { d with closed := true, dotted := false } else d)
      (settleParts ps)) :: settleParts rest

end

end Known

/-- What has been defined, and the path of the table in force. -/
structure Defined where
  known : Known
  current : List Bytes

namespace Defined

/-- At the start of a file the root table is in force. -/
def initial : Defined := ⟨.root, []⟩

/-- The table in force is left: its dotted keys are closed. -/
def leave (d : Defined) : Known :=
  (d.known.modify? (fun x => some x.settle) d.current).getD d.known

/-- Gives a table its heading, if it can have one. -/
def openTable? : Option Known → Option Known
  | none => some (.leaf .table true false)
  | some (.mk d ps) =>
    if d.kind = .table && !d.closed then some (.mk { d with closed := true } ps) else none

/-- Enters a table by its heading. -/
def heading? (d : Defined) (key : List Bytes) : Option Defined := do
  some ⟨← d.leave.walk? openTable? key, key⟩

/-- Starts the next table of an array of tables, if there is one or can be. -/
def openArray? : Option Known → Option Known
  | none => some (.leaf .arrayTable true false)
  | some (.mk d _) => if d.kind = .arrayTable then some (.mk d []) else none

/-- Whether a path has been defined. -/
def contains : Known → List Bytes → Bool
  | _, [] => true
  | x, k :: rest =>
    match x.find? k with
    | none => false
    | some y => contains y rest

/-- Enters the next table of an array by its heading, and tells whether it is the
first. -/
def arrayHeading? (d : Defined) (key : List Bytes) : Option (Defined × Bool) := do
  some (⟨← d.leave.walk? openArray? key, key⟩, !contains d.known key)

end Defined

mutual

/-- Whether every table in a value defines each key once. -/
def Value.isConsistent : Value → Bool
  | .array items => allConsistent items
  | .table entries => entriesConsistent .root entries
  | _ => true

/-- The same for the items of an array. -/
def allConsistent : List Value → Bool
  | [] => true
  | v :: rest => v.isConsistent && allConsistent rest

/-- The same for the entries of a table, in which the keys of `x` are defined. -/
def entriesConsistent (x : Known) : List (List Bytes × Value) → Bool
  | [] => true
  | (key, v) :: rest =>
    match x.dotted? key with
    | some x' => v.isConsistent && entriesConsistent x' rest
    | none => false

end

/-- Defines the key of a pair in the table in force. -/
def Defined.pair? (d : Defined) (key : List Bytes) (v : Value) : Option Defined := do
  let known ← d.known.modify? (·.dotted? key) d.current
  if v.isConsistent then some { d with known } else none

end TreeWat.Toml
