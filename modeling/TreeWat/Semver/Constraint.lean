import TreeWat.Semver.Version
set_option autoImplicit false

/-!
# Semver: constraints

A constraint such as `>=1.2, <2 || ~3.1` is a choice of conjunctions of comparisons.
A comparison names a version in which trailing components may be missing or replaced
by a wildcard; it is then *open*, and each operator has a reading of its own for open
versions.  A range `1.2 - 1.5` stands for `>= 1.2, <= 1.5`.

A version with a pre-release satisfies a comparison only if the comparison names a
pre-release too; `!=` asks for that only on open versions.
-/

namespace TreeWat.Semver

/-- Comparison operators. -/
inductive Operator where
  | eq | ne | gt | lt | ge | le | tilde | caret
  deriving DecidableEq, Repr

/-- Which components of a comparison's version are left open. -/
inductive Open where
  /-- None. -/
  | closed
  /-- All of them. -/
  | all
  /-- The second and third. -/
  | minor
  /-- The third. -/
  | patch
  deriving DecidableEq, Repr

/-- A comparison with a version; open components are zero in it. -/
structure Comparison where
  op : Operator
  base : Version
  isOpen : Open
  deriving DecidableEq, Repr

/-- A choice of conjunctions. -/
abbrev Constraint : Type := List (List Comparison)

/-- Why a text is no constraint. -/
inductive ConstraintError where
  /-- A choice that is not a sequence of comparisons. -/
  | improper (choice : Bytes)
  /-- A comparison whose version is none. -/
  | badVersion
  deriving DecidableEq, Repr

/-- The wording of an error. -/
def ConstraintError.text : ConstraintError → Bytes
  | .improper choice => utf8 "improper constraint: " ++ choice
  | .badVersion => utf8 "constraint Parser Error"

/-! ## Meaning -/

/-- The comparison `~`: at least the base, and equal to it where it is given, the
last given component excepted. -/
def Comparison.tilde (c : Comparison) (v : Version) : Bool :=
  if v.compare c.base = .lt then false
  else if c.base.major = 0 ∧ c.base.minor = 0 ∧ c.base.patch = 0
      ∧ c.isOpen ≠ .minor ∧ c.isOpen ≠ .patch then true
  else v.major = c.base.major && (c.isOpen = .minor || v.minor = c.base.minor)

/-- The comparison `^`: at least the base, and equal to it up to the first component
that is not zero. -/
def Comparison.caret (c : Comparison) (v : Version) : Bool :=
  if v.compare c.base = .lt then false
  else if 0 < c.base.major ∨ c.isOpen = .minor then v.major = c.base.major
  else if 0 < v.major then false
  else if 0 < c.base.minor ∨ c.isOpen = .patch then v.minor = c.base.minor
  else if 0 < v.minor then false
  else v.patch = c.base.patch

/-- The comparison `>`. -/
def Comparison.above (c : Comparison) (v : Version) : Bool :=
  if c.isOpen = .closed then v.compare c.base = .gt
  else if c.base.major < v.major then true
  else if v.major < c.base.major then false
  else match c.isOpen with
    | .minor => false
    | .patch => c.base.minor < v.minor
    | _ => v.compare c.base = .gt

/-- The comparison `<=`. -/
def Comparison.notAbove (c : Comparison) (v : Version) : Bool :=
  if c.isOpen = .closed then v.compare c.base ≠ .gt
  else if c.base.major < v.major then false
  else !(v.major = c.base.major && c.base.minor < v.minor && c.isOpen ≠ .minor)

/-- The comparison `!=` on an open version. -/
def Comparison.openDiffers (c : Comparison) (v : Version) : Bool :=
  if v.major ≠ c.base.major then true
  else if v.minor ≠ c.base.minor ∧ c.isOpen ≠ .minor then true
  else if c.isOpen = .minor then false
  else if v.patch ≠ c.base.patch ∧ c.isOpen ≠ .patch then true
  else if c.isOpen = .patch then
    (!v.pre.isEmpty || !c.base.pre.isEmpty) && comparePre v.pre c.base.pre ≠ .eq
  else v.compare c.base ≠ .eq

/-- Whether a version satisfies a comparison. -/
def Comparison.holds (c : Comparison) (v : Version) : Bool :=
  if c.op = .ne ∧ c.isOpen = .closed then v.compare c.base ≠ .eq
  else if !v.pre.isEmpty && c.base.pre.isEmpty then false
  else match c.op with
    | .eq => if c.isOpen = .closed then v.compare c.base = .eq else c.tilde v
    | .ne => c.openDiffers v
    | .gt => c.above v
    | .lt => v.compare c.base = .lt
    | .ge => v.compare c.base ≠ .lt
    | .le => c.notAbove v
    | .tilde => c.tilde v
    | .caret => c.caret v

/-- Whether a version satisfies a constraint. -/
def Constraint.holds (c : Constraint) (v : Version) : Bool :=
  c.any fun choice => choice.all fun cmp => cmp.holds v

/-! ## Reading -/

/-- White space in a constraint. -/
def isSpace (b : UInt8) : Bool :=
  b == byte ' ' || b == byte '\t' || b == byte '\n' || b == byte '\r' || b == 0x0C

/-- A character of a component that may be a wildcard. -/
def isOpenPart (b : UInt8) : Bool :=
  Bytes.isDigit b || b == byte 'x' || b == byte 'X' || b == byte '*' || b == byte '|'

/-- Whether a component is a wildcard. -/
def isWildcard (part : Bytes) : Bool :=
  part == utf8 "x" || part == utf8 "X" || part == utf8 "*"

/-- The spellings of the operators, longer ones first. -/
def operatorTexts : List (Bytes × Operator) :=
  [(utf8 "!=", .ne), (utf8 ">=", .ge), (utf8 "=>", .ge), (utf8 "<=", .le),
    (utf8 "=<", .le), (utf8 "~>", .tilde), (utf8 "=", .eq), (utf8 ">", .gt),
    (utf8 "<", .lt), (utf8 "~", .tilde), (utf8 "^", .caret)]

/-- Reads an operator; without one, equality is meant. -/
def readOperator (s : Bytes) : Operator × Bytes :=
  match operatorTexts.find? fun o => Bytes.startsWith s o.1 with
  | some (text, op) => (op, s.drop text.length)
  | none => (.eq, s)

/-- Reads one comparison at the front of a text. -/
def readComparison? (s : Bytes) : Option ((Operator × Parts) × Bytes) :=
  let (op, s) := readOperator s
  (readParts? isOpenPart (s.dropWhile isSpace)).map fun (p, rest) => ((op, p), rest)

/-- Reads further comparisons, each behind a blank or a comma; `fuel` bounds their
number. -/
def readMore? (fuel : Nat) (s : Bytes) : Option (List (Operator × Parts)) :=
  match fuel, s.dropWhile isSpace with
  | _, [] => some []
  | 0, _ => none
  | fuel + 1, b :: r =>
    if b = byte ',' then do
      let (c, rest) ← readComparison? (r.dropWhile isSpace)
      let more ← readMore? fuel rest
      some (c :: more)
    else if (s.head?.map isSpace).getD false then do
      let (c, rest) ← readComparison? (b :: r)
      let more ← readMore? fuel rest
      some (c :: more)
    else none

/-- Reads a conjunction of comparisons. -/
def readChoice? (s : Bytes) : Option (List (Operator × Parts)) := do
  let (c, rest) ← readComparison? (s.dropWhile isSpace)
  let more ← readMore? rest.length rest
  some (c :: more)

/-- The comparison with the given parts. -/
def ofOpenParts (op : Operator) (p : Parts) : Except ConstraintError Comparison :=
  let zero := utf8 "0"
  let (base, isOpen) : Parts × Open :=
    if isWildcard p.major then (⟨false, zero, zero, zero, p.pre, []⟩, .all)
    else if p.minor.isEmpty || isWildcard p.minor then
      (⟨false, p.major, zero, zero, p.pre, []⟩, .minor)
    else if p.patch.isEmpty || isWildcard p.patch then
      (⟨false, p.major, p.minor, zero, p.pre, []⟩, .patch)
    else (p, .closed)
  match Version.read base.text with
  | .ok v => .ok ⟨op, v, isOpen⟩
  | .error _ => .error .badVersion

/-- One range `low - high` at the front of a text, blanks around it included: the
text it covers and its two ends. -/
def readRange? (s : Bytes) : Option (Bytes × Bytes × Bytes) := do
  let (low, s₁) ← readParts? isOpenPart (s.dropWhile isSpace)
  match s₁.dropWhile isSpace with
  | d :: s₂ =>
    if d = byte '-' && (s₁.head?.map isSpace).getD false && (s₂.head?.map isSpace).getD false
    then do
      let (high, s₃) ← readParts? isOpenPart (s₂.dropWhile isSpace)
      let rest := s₃.dropWhile isSpace
      some (s.take (s.length - rest.length), low.text, high.text)
    else none
  | [] => none

/-- The ranges in a text, from left to right, skipping the first `skip` bytes. -/
def rangesFrom (skip : Nat) : Bytes → List (Bytes × Bytes × Bytes)
  | [] => []
  | b :: r =>
    match skip with
    | k + 1 => rangesFrom k r
    | 0 =>
      match readRange? (b :: r) with
      | some (covered, low, high) =>
        (covered, low, high) :: rangesFrom (covered.length - 1) r
      | none => rangesFrom 0 r

/-- Puts `new` in the place of the first occurrence of `old`. -/
def replaceFirst (old new : Bytes) : Bytes → Bytes
  | [] => if old.isEmpty then new else []
  | b :: r =>
    if Bytes.startsWith (b :: r) old then new ++ (b :: r).drop old.length
    else b :: replaceFirst old new r

/-- Writes ranges as pairs of comparisons. -/
def expandRanges (s : Bytes) : Bytes :=
  (rangesFrom 0 s).foldl (fun t (covered, low, high) =>
    replaceFirst covered (utf8 ">= " ++ low ++ utf8 ", <= " ++ high ++ utf8 " ") t) s

/-- The choices of a constraint, which are separated by two bars. -/
def splitChoices : Bytes → List Bytes
  | [] => [[]]
  | [b] => [[b]]
  | b :: c :: r =>
    if b = byte '|' && c = byte '|' then [] :: splitChoices r
    else match splitChoices (c :: r) with
      | [] => [[b]]
      | piece :: more => (b :: piece) :: more

/-- Reads one choice. -/
def readConjunction (choice : Bytes) : Except ConstraintError (List Comparison) :=
  match readChoice? choice with
  | none => .error (.improper choice)
  | some parts => parts.mapM fun (op, p) => ofOpenParts op p

/-- Reads a constraint. -/
def Constraint.read (s : Bytes) : Except ConstraintError Constraint :=
  (splitChoices (expandRanges s)).mapM readConjunction

end TreeWat.Semver
