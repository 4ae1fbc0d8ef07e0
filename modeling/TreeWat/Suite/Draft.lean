import TreeWat.Compiler
import TreeWat.Files
import TreeWat.Suite
import TreeWat.Text.Blank
set_option autoImplicit false

/-!
# Suites: drafts of test cases

A draft records what the compiler does with a program today: the error it reports, or the
lines of the entry function of the module.  A list of drafts is written as a suite, in
the order of their names.
-/

namespace TreeWat.Suite

/-- A test case that states what the compiler does. -/
structure Draft where
  name : Bytes
  input : Bytes
  expectation : Expectation
  content : Bytes
  deriving Repr

/-- Why a program has no draft. -/
inductive DraftError where
  | unreadable (e : FileError)
  | rejected (e : Compiler.Error)
  deriving Repr

/-! ## The entry function -/

/-- The start of the line that opens the entry function. -/
def entryStart : Bytes := utf8 "(func $main"

/-- The lines of the entry function, without white space at their ends and without those
that only close something.  The function ends where the next section of the module
starts. -/
def entryLinesFrom (isInside : Bool) : List Bytes → List Bytes
  | [] => []
  | line :: rest =>
    let text := Text.trim line
    if Bytes.startsWith text entryStart then text :: entryLinesFrom true rest
    else if isInside && Bytes.startsWith line (utf8 "\t(") then []
    else if isInside && !text.isEmpty && text ≠ utf8 ")" then
      text :: entryLinesFrom isInside rest
    else entryLinesFrom isInside rest

/-- The lines of the entry function of a module text. -/
def entryLines (module : Bytes) : Bytes :=
  Bytes.join (utf8 "\n") (entryLinesFrom false (Bytes.split (byte '\n') module))

/-! ## Drafting -/

/-- What an assertion says of an error: its kind, and the token it is about. -/
def describe (d : Diagnostic) : Bytes :=
  if d.token.isEmpty then d.kind.text
  else d.kind.text ++ utf8 " " ++ Text.quoted d.token

/-- The draft of a program. -/
def Draft.ofProgram (name input : Bytes) : Except DraftError Draft :=
  match Compiler.compileSource false input with
  | .ok r => .ok ⟨name, input, .wat, entryLines r.wat⟩
  | .error (.failure (.user d)) => .ok ⟨name, input, .compileError, describe d⟩
  | .error e => .error (.rejected e)

/-- The name of the test for a file: its last element without extension, with blanks for
underscores. -/
def testName (path : Bytes) : Bytes :=
  Bytes.replace (byte '_') (byte ' ') (Bytes.withoutEnd (Path.extension path) (Path.base path))

/-- The draft of the program in a file, given what reading the file gave. -/
def Draft.ofFile (path : Bytes) : Except FileError Bytes → Except DraftError Draft
  | .error e => .error (.unreadable e)
  | .ok content => Draft.ofProgram (testName path) (Bytes.trimEnd (· == byte '\n') content)

/-- The drafts of files, or the first file that has none. -/
def draftFiles (fs : FileSystem) : List Bytes → Except (Bytes × DraftError) (List Draft)
  | [] => .ok []
  | path :: rest =>
    match Draft.ofFile path (fs.readFile path) with
    | .error e => .error (path, e)
    | .ok d =>
      match draftFiles fs rest with
      | .error e => .error e
      | .ok ds => .ok (d :: ds)

/-! ## Writing -/

/-- A fence with its content. -/
def fenceText (language content : Bytes) : Bytes :=
  utf8 "```" ++ language ++ utf8 "\n" ++ content ++ utf8 "\n```\n"

/-- A draft as a section of a suite. -/
def Draft.text (d : Draft) : Bytes :=
  utf8 "## " ++ headingStart ++ d.name ++ utf8 "\n" ++ fenceText inputLanguage d.input
    ++ fenceText d.expectation.language d.content ++ utf8 "\n"

/-- The suite of drafts, in the order of their names. -/
def draftSuite (ds : List Draft) : Bytes :=
  if ds.isEmpty then utf8 "# No test cases found\n"
  else (ds.mergeSort fun a b => !Bytes.less b.name a.name).flatMap Draft.text

end TreeWat.Suite
