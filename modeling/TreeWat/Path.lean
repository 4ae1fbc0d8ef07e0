import TreeWat.Text.Bytes
set_option autoImplicit false

/-!
# Path: slash-separated paths

The lexical operations on paths: extension, last element, directory, shortest
equivalent form, joining.  None of them looks at a file system.
-/

namespace TreeWat.Path

/-- The suffix from the last dot of the last element on; empty if it has no dot. -/
def extension (p : Bytes) : Bytes :=
  let name := (p.reverse.takeWhile (· ≠ byte '/')).reverse
  match name.reverse.dropWhile (· ≠ byte '.') with
  | [] => []
  | before => name.drop (before.length - 1)

/-- The path without its extension. -/
def withoutExtension (p : Bytes) : Bytes :=
  p.take (p.length - (extension p).length)

/-- Whether a path starts at the root. -/
def isAbsolute (p : Bytes) : Bool :=
  p.head? == some (byte '/')

/-- The elements of a path, empty ones left out. -/
def elements (p : Bytes) : List Bytes :=
  (Bytes.split (byte '/') p).filter fun e => !e.isEmpty

/-- The last element.  The root is its own last element, and the empty path has the
element `.`. -/
def base (p : Bytes) : Bytes :=
  match (elements p).getLast? with
  | some e => e
  | none => if p.isEmpty then utf8 "." else utf8 "/"

/-- Resolves `.` and `..` among elements, given those resolved so far, last first.
An upward step that has nothing to go up from is dropped below the root and kept
elsewhere. -/
def resolve (rooted : Bool) (done : List Bytes) : List Bytes → List Bytes
  | [] => done.reverse
  | e :: rest =>
    if e = utf8 "." then resolve rooted done rest
    else if e = utf8 ".." then
      match done with
      | d :: more =>
        if d = utf8 ".." then resolve rooted (e :: done) rest
        else resolve rooted more rest
      | [] => if rooted then resolve rooted [] rest else resolve rooted [e] rest
    else resolve rooted (e :: done) rest

/-- The shortest path that means the same. -/
def clean (p : Bytes) : Bytes :=
  let parts := Bytes.join (utf8 "/") (resolve (isAbsolute p) [] (elements p))
  if isAbsolute p then utf8 "/" ++ parts
  else if parts.isEmpty then utf8 "."
  else parts

/-- Everything up to the last element. -/
def directory (p : Bytes) : Bytes :=
  clean (p.reverse.dropWhile (· ≠ byte '/')).reverse

/-- Two paths one below the other. -/
def join (a b : Bytes) : Bytes :=
  if a.isEmpty && b.isEmpty then []
  else if a.isEmpty then clean b
  else if b.isEmpty then clean a
  else clean (a ++ utf8 "/" ++ b)

end TreeWat.Path
