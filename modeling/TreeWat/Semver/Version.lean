import TreeWat.Text.Quoted
set_option autoImplicit false

/-!
# Semver: versions

A version is up to three numbers, a pre-release in dotted parts and metadata, such
as `v1.2.3-beta.2+linux`.  Versions are ordered by their numbers; a pre-release
comes before its release, and metadata does not count.
-/

namespace TreeWat.Semver

/-! ## Spelling -/

/-- A character of a pre-release or metadata part. -/
def isIdent (b : UInt8) : Bool :=
  Bytes.isDigit b || Bytes.isLetter b || b == byte '-'

/-- The rest of a run of dotted parts, behind its first character. -/
def dottedRest : Bytes → Bytes × Bytes
  | [] => ([], [])
  | b :: r =>
    if isIdent b then
      let (run, rest) := dottedRest r
      (b :: run, rest)
    else if b = byte '.' then
      match r with
      | c :: _ =>
        if isIdent c then
          let (run, rest) := dottedRest r
          (b :: run, rest)
        else ([], b :: r)
      | [] => ([], b :: r)
    else ([], b :: r)

/-- The dotted parts behind the mark `mark`; empty if the mark or the parts are
missing. -/
def readDotted (mark : UInt8) (s : Bytes) : Bytes × Bytes :=
  match s with
  | m :: b :: r =>
    if m = mark && isIdent b then
      let (run, rest) := dottedRest r
      (b :: run, rest)
    else ([], s)
  | _ => ([], s)

/-- A run of component characters. -/
def readComponent (isPart : UInt8 → Bool) (s : Bytes) : Bytes × Bytes :=
  (s.takeWhile isPart, s.dropWhile isPart)

/-- A further component behind a dot; empty if there is none. -/
def readNext (isPart : UInt8 → Bool) (s : Bytes) : Bytes × Bytes :=
  match s with
  | d :: r =>
    if d = byte '.' then
      match readComponent isPart r with
      | ([], _) => ([], s)
      | found => found
    else ([], s)
  | [] => ([], s)

/-- The parts of a version as they are written; a missing part is empty. -/
structure Parts where
  /-- Whether a `v` stands in front. -/
  marked : Bool
  major : Bytes
  minor : Bytes
  patch : Bytes
  pre : Bytes
  build : Bytes
  deriving DecidableEq, Repr

/-- The parts in their written form. -/
def Parts.text (p : Parts) : Bytes :=
  (if p.marked then utf8 "v" else []) ++ p.major
    ++ (if p.minor.isEmpty then [] else utf8 "." ++ p.minor)
    ++ (if p.patch.isEmpty then [] else utf8 "." ++ p.patch)
    ++ (if p.pre.isEmpty then [] else utf8 "-" ++ p.pre)
    ++ (if p.build.isEmpty then [] else utf8 "+" ++ p.build)

/-- Reads the longest version at the front of a text, over the given component
characters. -/
def readParts? (isPart : UInt8 → Bool) (s : Bytes) : Option (Parts × Bytes) :=
  let marked := s.head? = some (byte 'v')
  let s := if marked then s.drop 1 else s
  match readComponent isPart s with
  | ([], _) => none
  | (major, s) =>
    let (minor, s) := readNext isPart s
    let (patch, s) := if minor.isEmpty then ([], s) else readNext isPart s
    let (pre, s) := readDotted (byte '-') s
    let (build, s) := readDotted (byte '+') s
    some (⟨marked, major, minor, patch, pre, build⟩, s)

/-! ## Versions -/

/-- A version. -/
structure Version where
  major : Nat
  minor : Nat
  patch : Nat
  pre : Bytes
  build : Bytes
  deriving DecidableEq, Repr

/-- Why a text is no version. -/
inductive VersionError where
  | notAVersion
  /-- A number above 64 bits. -/
  | tooLarge (digits : Bytes)
  /-- A numeric pre-release part with a leading zero. -/
  | leadingZero
  deriving DecidableEq, Repr

/-- The wording of an error. -/
def VersionError.text : VersionError → Bytes
  | .notAVersion => utf8 "Invalid Semantic Version"
  | .tooLarge digits =>
    utf8 "Error parsing version segment: strconv.ParseUint: parsing "
      ++ Text.quoted digits ++ utf8 ": value out of range"
  | .leadingZero => utf8 "Version segment starts with 0"

/-- A component as a number; a missing one is zero. -/
def readNumber (digits : Bytes) : Except VersionError Nat :=
  let n := Bytes.digitsValue digits
  if n < 18446744073709551616 then .ok n else .error (.tooLarge digits)

/-- Whether a pre-release part is a number with a leading zero. -/
def hasLeadingZero (part : Bytes) : Bool :=
  part.all Bytes.isDigit && 1 < part.length && part.head? == some (byte '0')

/-- The version with the given parts, all of whose components are digits. -/
def ofParts (p : Parts) : Except VersionError Version := do
  let major ← readNumber p.major
  let minor ← readNumber p.minor
  let patch ← readNumber p.patch
  if (Bytes.split (byte '.') p.pre).any hasLeadingZero then .error .leadingZero
  else .ok ⟨major, minor, patch, p.pre, p.build⟩

/-- Reads a text that holds exactly one version. -/
def Version.read (s : Bytes) : Except VersionError Version :=
  match readParts? Bytes.isDigit s with
  | some (p, []) => ofParts p
  | _ => .error .notAVersion

/-- The version in full. -/
def Version.text (v : Version) : Bytes :=
  Bytes.ofNat v.major ++ utf8 "." ++ Bytes.ofNat v.minor ++ utf8 "." ++ Bytes.ofNat v.patch
    ++ (if v.pre.isEmpty then [] else utf8 "-" ++ v.pre)
    ++ (if v.build.isEmpty then [] else utf8 "+" ++ v.build)

/-! ## Order -/

/-- A pre-release part as a number of at most 64 bits. -/
def partNumber? (part : Bytes) : Option Nat :=
  match Bytes.toNat? part with
  | some n => if n < 18446744073709551616 then some n else none
  | none => none

/-- Compares two pre-release parts: a missing part comes first, numbers come before
words, numbers compare by value and words byte by byte. -/
def comparePart (a b : Bytes) : Ordering :=
  if a = b then .eq
  else if a.isEmpty then .lt
  else if b.isEmpty then .gt
  else match partNumber? a, partNumber? b with
    | some m, some n => if n < m then .gt else .lt
    | some _, none => .lt
    | none, some _ => .gt
    | none, none => if Bytes.less b a then .gt else .lt

/-- Compares pre-releases part by part. -/
def compareParts : List Bytes → List Bytes → Ordering
  | [], [] => .eq
  | a :: as, [] => (comparePart a []).then (compareParts as [])
  | [], b :: bs => (comparePart [] b).then (compareParts [] bs)
  | a :: as, b :: bs => (comparePart a b).then (compareParts as bs)

/-- Compares two pre-releases. -/
def comparePre (a b : Bytes) : Ordering :=
  compareParts (Bytes.split (byte '.') a) (Bytes.split (byte '.') b)

/-- Compares two versions; metadata does not count. -/
def Version.compare (v w : Version) : Ordering :=
  (Ord.compare v.major w.major).then <|
    (Ord.compare v.minor w.minor).then <|
      (Ord.compare v.patch w.patch).then <|
        if v.pre.isEmpty && w.pre.isEmpty then .eq
        else if v.pre.isEmpty then .gt
        else if w.pre.isEmpty then .lt
        else comparePre v.pre w.pre

end TreeWat.Semver
