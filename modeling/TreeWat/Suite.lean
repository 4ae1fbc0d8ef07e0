import TreeWat.Datum.Reader
import TreeWat.Markdown.Document
set_option autoImplicit false

/-!
# Suites

A suite is a document of test cases.  A heading `Test: name` opens a case, and the
fences up to the next such heading belong to it: one with the program and at least one
with what is expected of it.  Other headings are prose, and so are fences without a
language.

`collect` reads the cases from the headings and fences of a document; `Suite.read` reads
them from its text.
-/

namespace TreeWat

namespace Suite

/-- What an assertion is about. -/
inductive Expectation where
  | compileError
  | wat
  | watDebug
  | annotated
  | execute
  deriving DecidableEq, Repr

/-- The language of a fence with such an assertion. -/
def Expectation.language : Expectation → Bytes
  | .compileError => utf8 "compile-error"
  | .wat => utf8 "wat"
  | .watDebug => utf8 "wat-debug"
  | .annotated => utf8 "annotated"
  | .execute => utf8 "execute"

/-- Every kind of assertion. -/
def Expectation.all : List Expectation :=
  [.compileError, .wat, .watDebug, .annotated, .execute]

/-- The language of a fence with a program. -/
def inputLanguage : Bytes := utf8 "jmm-ast"

/-- What a fence is for. -/
inductive Role where
  | input
  | assertion (e : Expectation)
  | unknown
  deriving DecidableEq, Repr

/-- What a fence of a language is for. -/
def Role.ofLanguage (language : Bytes) : Role :=
  if language = inputLanguage then .input
  else match Expectation.all.find? (fun e => e.language = language) with
    | some e => .assertion e
    | none => .unknown

/-- Something that is expected of a program. -/
structure Assertion where
  expectation : Expectation
  content : Bytes
  /-- The content of an annotated tree is itself a datum. -/
  parsed : Option Datum

/-- A test case.  There is one language of programs, `inputLanguage`, so a case does not say in
which one its program is. -/
structure Case where
  name : Bytes
  /-- The line of its heading. -/
  line : Nat
  /-- Empty as long as no program has been seen. -/
  input : Bytes := []
  assertions : List Assertion := []

/-- Why a document is no suite. -/
inductive Error where
  | unknownOutside (line : Nat) (language : Bytes)
  | knownOutside (line : Nat) (language : Bytes)
  | secondInput (line : Nat) (name : Bytes)
  | badDatum (line : Nat) (name message : Bytes)
  | unknownLanguage (line : Nat) (language name : Bytes)
  | noInput (name : Bytes)
  | noAssertions (name : Bytes)
  deriving DecidableEq, Repr

/-- What an error says. -/
def Error.text : Error → Bytes
  | .unknownOutside line language =>
    utf8 "line " ++ Bytes.ofNat line ++ utf8 ": unknown fence language '" ++ language
      ++ utf8 "' found outside of test case"
  | .knownOutside line language =>
    utf8 "line " ++ Bytes.ofNat line ++ utf8 ": " ++ language
      ++ utf8 " fence found outside of test case"
  | .secondInput line name =>
    utf8 "line " ++ Bytes.ofNat line ++ utf8 ": multiple input fences found in test '" ++ name
      ++ utf8 "'"
  | .badDatum line name message =>
    utf8 "line " ++ Bytes.ofNat line ++ utf8 ": failed to parse Sexy assertion in test '" ++ name
      ++ utf8 "': " ++ message
  | .unknownLanguage line language name =>
    utf8 "line " ++ Bytes.ofNat line ++ utf8 ": unknown fence language '" ++ language
      ++ utf8 "' in test '" ++ name ++ utf8 "'"
  | .noInput name => utf8 "test '" ++ name ++ utf8 "' has no input fence"
  | .noAssertions name => utf8 "test '" ++ name ++ utf8 "' has no assertion fences"

/-! ## Collecting -/

/-- The cases that are complete, last first, and the one that is open. -/
structure Progress where
  finished : List Case := []
  current : Option Case := none

/-- Completes the open case, which must have a program and an assertion. -/
def Progress.flush (p : Progress) : Except Error Progress :=
  match p.current with
  | none => .ok p
  | some c =>
    if c.input.isEmpty then .error (.noInput c.name)
    else if c.assertions.isEmpty then .error (.noAssertions c.name)
    else .ok ⟨c :: p.finished, none⟩

/-- How the heading of a test case starts. -/
def headingStart : Bytes := utf8 "Test: "

/-- Takes a heading: one of a test case completes the open case and opens the next. -/
def Progress.heading (p : Progress) (title : Bytes) (line : Nat) : Except Error Progress :=
  match Bytes.after? headingStart title with
  | none => .ok p
  | some name => do
    let p ← p.flush
    .ok { p with current := some { name, line } }

/-- The assertion that a fence makes in the test `name`. -/
def readAssertion (e : Expectation) (body : Bytes) (line : Nat) (name : Bytes) :
    Except Error Assertion :=
  match e with
  | .annotated =>
    match Datum.read body with
    | .ok d => .ok ⟨e, body, some d⟩
    | .error err => .error (.badDatum line name err.text)
  | _ => .ok ⟨e, body, none⟩

/-- Takes a fence, which belongs to the open case. -/
def Progress.fence (p : Progress) (language body : Bytes) (line : Nat) :
    Except Error Progress :=
  let body := Bytes.trimEnd (· == byte '\n') body
  match p.current with
  | none =>
    if language.isEmpty then .ok p
    else if Role.ofLanguage language = .unknown then .error (.unknownOutside line language)
    else .error (.knownOutside line language)
  | some c =>
    match Role.ofLanguage language with
    | .input =>
      if c.input.isEmpty then .ok { p with current := some { c with input := body } }
      else .error (.secondInput line c.name)
    | .assertion e => do
      let a ← readAssertion e body line c.name
      .ok { p with current := some { c with assertions := c.assertions ++ [a] } }
    | .unknown =>
      if language.isEmpty then .ok p else .error (.unknownLanguage line language c.name)

/-- Takes the headings and fences of a document in order. -/
def Progress.take (p : Progress) : List Markdown.Section → Except Error Progress
  | [] => .ok p
  | .heading title line :: rest => do (← p.heading title line).take rest
  | .fence language body line :: rest => do (← p.fence language body line).take rest

/-- Why a suite is rejected: in the middle of the document, or at its end, where the
last case is completed. -/
inductive Rejection where
  | inside (e : Error)
  | atEnd (e : Error)
  deriving DecidableEq, Repr

/-- What a rejection says. -/
def Rejection.text : Rejection → Bytes
  | .inside e => utf8 "error walking markdown AST: " ++ e.text
  | .atEnd e => e.text

/-- The test cases among the headings and fences of a document, in order. -/
def collect (sections : List Markdown.Section) : Except Rejection (List Case) := do
  let p ← (Progress.take {} sections).mapError Rejection.inside
  let p ← p.flush.mapError Rejection.atEnd
  .ok p.finished.reverse

/-- The test cases of a document. -/
def read (document : Bytes) : Except Rejection (List Case) :=
  collect (Markdown.sections document)

end Suite

end TreeWat
