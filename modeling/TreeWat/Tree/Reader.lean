import TreeWat.Datum.Reader
import TreeWat.Tree.Basic
set_option autoImplicit false

/-!
# Tree: reading trees

A list whose first item is a kind symbol is a node, and a bare symbol is a node
without children.  Identifiers and literals take their text from a single atom.
Metadata `line` and `col` move a node; without `line` it stands where its list
starts.

An integer literal has to fit in 32 bits.  The magnitude of the smallest integer
is admitted under a negation only.
-/

namespace TreeWat.Tree

/-- Why a datum is no tree. -/
inductive ReadCause where
  | unknownKind (name : Bytes)
  | noHead
  | missingValue (kind : Kind)
  | notOneValue (kind : Kind)
  | badNumber (text : Bytes)
  | numberTooLarge (text : Bytes)
  /-- Metadata `key` that is no integer. -/
  | badMetadata (key : Bytes) (value : Datum)
  /-- Metadata `key` outside the machine's integers. -/
  | metadataTooLarge (key : Bytes) (text : Bytes)
  | notANode (d : Datum)
  deriving Repr

/-- Why a text is no tree. -/
inductive ReadError where
  /-- The text is not in the bracket notation. -/
  | brackets (e : Datum.ReadError)
  /-- A datum, on the given line, is no tree. -/
  | tree (line : Int) (cause : ReadCause)
  deriving Repr

/-- The wording of a cause. -/
def ReadCause.text : ReadCause → Bytes
  | .unknownKind name => utf8 "unknown node kind " ++ Text.quoted name
  | .noHead => utf8 "node must start with a kind symbol"
  | .missingValue kind => kind.text ++ utf8 " node needs a value"
  | .notOneValue kind => kind.text ++ utf8 " node needs exactly one value"
  | .badNumber text => utf8 "bad number " ++ Text.quoted text
  | .numberTooLarge text => utf8 "number " ++ text ++ utf8 " does not fit in an int"
  | .badMetadata key value =>
    key ++ utf8 " metadata: expected an integer, got " ++ value.print
  | .metadataTooLarge key text =>
    key ++ utf8 " metadata: strconv.Atoi: parsing " ++ Text.quoted text
      ++ utf8 ": value out of range"
  | .notANode d => utf8 "expected a node, got " ++ d.print

/-- The wording of an error. -/
def ReadError.text : ReadError → Bytes
  | .brackets e => utf8 "reading AST: " ++ e.text
  | .tree line cause => utf8 "line " ++ Bytes.ofInt line ++ utf8 ": " ++ cause.text

/-- The largest literal below a node of kind `parent`. -/
def literalLimit (parent : Option Kind) : Int :=
  if parent = some (.unary .neg) then 2147483648 else 2147483647

/-- Checks the text of an integer literal. -/
def checkLiteral (text : Bytes) (parent : Option Kind) : Except ReadCause Unit :=
  match Bytes.toInt64? text with
  | none => .error (.badNumber text)
  | some v =>
    if v < -2147483648 ∨ literalLimit parent < v then .error (.numberTooLarge text)
    else .ok ()

/-- The integer stored as metadata under `key`. -/
def metadataInt (key : Bytes) (value : Datum) : Except ReadCause Int :=
  match value with
  | .atom .integer _ text =>
    match Bytes.toInt64? text with
    | some v => .ok v
    | none => .error (.metadataTooLarge key text)
  | d => .error (.badMetadata key d)

/-- The location of the node a list describes. -/
def location (d : Datum) : Except ReadCause Location := do
  match d.metadata? (utf8 "line") with
  | none => .ok d.loc
  | some line =>
    let l ← metadataInt (utf8 "line") line
    match d.metadata? (utf8 "col") with
    | none => .ok ⟨l, 0⟩
    | some col =>
      let c ← metadataInt (utf8 "col") col
      .ok ⟨l, c⟩

mutual

/-- The tree a datum describes, below a node of kind `parent`. -/
def ofDatum (parent : Option Kind) (d : Datum) : Except ReadError Node :=
  match d with
  | .atom .symbol loc name =>
    match Kind.ofText? name with
    | none => .error (.tree loc.line (.unknownKind name))
    | some kind =>
      if kind.hasAttr then .error (.tree loc.line (.missingValue kind))
      else .ok (.leaf kind [] loc)
  | .list loc keys values items =>
    match items with
    | .atom .symbol _ name :: rest =>
      match Kind.ofText? name with
      | none => .error (.tree loc.line (.unknownKind name))
      | some kind =>
        match location (.list loc keys values []) with
        | .error cause => .error (.tree loc.line cause)
        | .ok place =>
          if kind.hasAttr then
            match rest with
            | [.atom _ _ text] =>
              if kind = .num then
                match checkLiteral text parent with
                | .error cause => .error (.tree loc.line cause)
                | .ok () => .ok (.leaf kind text place)
              else .ok (.leaf kind text place)
            | _ => .error (.tree loc.line (.notOneValue kind))
          else
            match ofData kind rest with
            | .error e => .error e
            | .ok children => .ok (.branch kind place children)
    | _ => .error (.tree loc.line .noHead)
  | d => .error (.tree d.loc.line (.notANode d))

/-- The children of a node of kind `parent`. -/
def ofData (parent : Kind) : List Datum → Except ReadError (List Node)
  | [] => .ok []
  | d :: r =>
    match ofDatum (some parent) d with
    | .error e => .error e
    | .ok n =>
      match ofData parent r with
      | .error e => .error e
      | .ok ns => .ok (n :: ns)

end

/-- Reads a text that holds exactly one tree. -/
def read (s : Bytes) : Except ReadError Node :=
  match Datum.read s with
  | .error e => .error (.brackets e)
  | .ok d => ofDatum none d

end TreeWat.Tree
