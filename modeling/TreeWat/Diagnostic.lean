import TreeWat.Location
import TreeWat.Text.Quoted
import TreeWat.Ty
set_option autoImplicit false

/-!
# Diagnostic: errors in the user's program

A diagnostic says which rule a program breaks, at which token, and where.  The
wordings of all rules stand here, one constructor function per rule; the checker
only chooses among them.  A diagnostic is always rendered as a single line.
-/

namespace TreeWat

/-- The rules a program can break. -/
inductive DiagnosticKind where
  | duplicateVariable
  | duplicateFunction
  | duplicateMain
  | undeclaredVariable
  | undeclaredFunction
  | typeMismatch
  | argumentMismatch
  | variableDeclarationInInnerBlock
  | breakNotInLoop
  | noMain
  | functionDoesNotReturn
  | callMain
  /-- A number that names no rule. -/
  | unlisted (number : Int)
  deriving DecidableEq, Repr, Inhabited

namespace DiagnosticKind

/-- Every rule, in the order of their numbers, which start at one. -/
def all : List DiagnosticKind :=
  [duplicateVariable, duplicateFunction, duplicateMain, undeclaredVariable,
    undeclaredFunction, typeMismatch, argumentMismatch, variableDeclarationInInnerBlock,
    breakNotInLoop, noMain, functionDoesNotReturn, callMain]

/-- The number of a kind. -/
def number : DiagnosticKind → Int
  | .duplicateVariable => 1
  | .duplicateFunction => 2
  | .duplicateMain => 3
  | .undeclaredVariable => 4
  | .undeclaredFunction => 5
  | .typeMismatch => 6
  | .argumentMismatch => 7
  | .variableDeclarationInInnerBlock => 8
  | .breakNotInLoop => 9
  | .noMain => 10
  | .functionDoesNotReturn => 11
  | .callMain => 12
  | .unlisted n => n

/-- The kind with a given number. -/
def ofNumber (n : Int) : DiagnosticKind :=
  match all.find? (·.number = n) with
  | some k => k
  | none => .unlisted n

/-- The name of a kind. -/
def text : DiagnosticKind → Bytes
  | .duplicateVariable => utf8 "DuplicateVariable"
  | .duplicateFunction => utf8 "DuplicateFunction"
  | .duplicateMain => utf8 "DuplicateMain"
  | .undeclaredVariable => utf8 "UndeclaredVariable"
  | .undeclaredFunction => utf8 "UndeclaredFunction"
  | .typeMismatch => utf8 "TypeMismatch"
  | .argumentMismatch => utf8 "ArgumentMismatch"
  | .variableDeclarationInInnerBlock => utf8 "VariableDeclarationInInnerBlock"
  | .breakNotInLoop => utf8 "BreakNotInLoop"
  | .noMain => utf8 "NoMain"
  | .functionDoesNotReturn => utf8 "FunctionDoesNotReturn"
  | .callMain => utf8 "CallMain"
  | .unlisted n => utf8 "Kind(" ++ Bytes.ofInt n ++ utf8 ")"

/-- The rule of that name. -/
def ofText? (name : Bytes) : Option DiagnosticKind :=
  all.find? (·.text = name)

end DiagnosticKind

/-- An error in the user's program. -/
structure Diagnostic where
  kind : DiagnosticKind
  /-- The offending token; may be empty. -/
  token : Bytes
  loc : Location
  detail : Bytes
  deriving DecidableEq, Repr

namespace Diagnostic

/-- The diagnostic on a single line.  Parts that say nothing are left out. -/
def text (d : Diagnostic) : Bytes :=
  Bytes.replace (byte '\n') (byte ' ')
    (d.kind.text
      ++ (if d.loc.isKnown then utf8 " at " ++ d.loc.text else [])
      ++ (if d.token.isEmpty then [] else utf8 " on token " ++ Text.quoted d.token)
      ++ (if d.detail.isEmpty then [] else utf8 ": " ++ d.detail))

/-! ## The rules and their wordings -/

/-- A variable whose name its scope already binds. -/
def duplicateVariable (name : Bytes) (loc : Location) : Diagnostic :=
  ⟨.duplicateVariable, name, loc,
    utf8 "Variable names must be unique from other functions or variables"⟩

/-- A function whose name its scope already binds. -/
def duplicateFunction (name : Bytes) (loc : Location) : Diagnostic :=
  ⟨.duplicateFunction, name, loc,
    utf8 "Function names must be unique from other functions or variables"⟩

/-- A second entry point. -/
def duplicateMain (name : Bytes) (loc : Location) : Diagnostic :=
  ⟨.duplicateMain, name, loc, utf8 "Program cannot have two main functions"⟩

/-- A variable that no active scope binds. -/
def undeclaredVariable (name : Bytes) (loc : Location) : Diagnostic :=
  ⟨.undeclaredVariable, name, loc, utf8 "Variables must be declared before use"⟩

/-- A call of a function that does not exist. -/
def undeclaredFunction (name : Bytes) (loc : Location) : Diagnostic :=
  ⟨.undeclaredFunction, name, loc, utf8 "Functions must be declared before use"⟩

/-- A call of the entry point. -/
def callMain (name : Bytes) (loc : Location) : Diagnostic :=
  ⟨.callMain, name, loc, utf8 "Cannot call the main function"⟩

/-- An operand or argument of the wrong type; `want` names what was expected. -/
def typeMismatch (token : Bytes) (loc : Location) (want : Bytes) : Diagnostic :=
  ⟨.typeMismatch, token, loc, utf8 "Type " ++ want ++ utf8 " was expected"⟩

/-- A call with the wrong number of arguments. -/
def argumentCount (token : Bytes) (loc : Location) : Diagnostic :=
  ⟨.argumentMismatch, token, loc, utf8
    "Number of arguments must match the number of declared parameters of called function"⟩

/-- A `return` with a value in a void function, or a `break` with an operand. -/
def noArguments (token : Bytes) (loc : Location) : Diagnostic :=
  ⟨.argumentMismatch, token, loc, utf8 "0 arguments expected"⟩

/-- A `return` without a value in a function of type `want`. -/
def missingValue (loc : Location) (want : Ty) : Diagnostic :=
  ⟨.argumentMismatch, utf8 "return", loc,
    utf8 "1 argument of type " ++ want.text ++ utf8 " expected"⟩

/-- A variable declared deeper than the outermost block of a function. -/
def innerDeclaration (ty : Ty) (name : Bytes) (loc : Location) : Diagnostic :=
  ⟨.variableDeclarationInInnerBlock, ty.text ++ utf8 " " ++ name, loc, utf8
    "Variables must be declared globally or in the outermost block of a function"⟩

/-- A `break` outside every loop. -/
def breakNotInLoop (loc : Location) : Diagnostic :=
  ⟨.breakNotInLoop, utf8 "break", loc, utf8 "Break statements must be inside a while loop"⟩

/-- A program without an entry point. -/
def noMain : Diagnostic :=
  ⟨.noMain, [], .nowhere, utf8 "Program has no main function"⟩

/-- A function with a result type that may end without returning. -/
def doesNotReturn (name : Bytes) (loc : Location) (result : Ty) : Diagnostic :=
  ⟨.functionDoesNotReturn, name, loc, result.text ++ utf8 " functions must return a value"⟩

end Diagnostic

/-- An error on its way to the user: a diagnostic, some other error, or either of
them with a phrase of context in front. -/
inductive Report where
  | diagnostic (d : Diagnostic)
  | plain (text : Bytes)
  | within (context : Bytes) (inner : Report)
  deriving DecidableEq, Repr

namespace Report

/-- The wording, contexts first. -/
def text : Report → Bytes
  | .diagnostic d => d.text
  | .plain t => t
  | .within context inner => context ++ utf8 ": " ++ inner.text

/-- The kind of the diagnostic inside, if there is one. -/
def kind? : Report → Option DiagnosticKind
  | .diagnostic d => some d.kind
  | .plain _ => none
  | .within _ inner => inner.kind?

end Report

end TreeWat
