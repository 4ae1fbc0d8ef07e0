import TreeWat.Scope.Basic
import TreeWat.Tree.Basic
set_option autoImplicit false

/-!
# Failure: the ways a step can end early

Three parties can be at fault, and the three are kept apart.  The user's program
breaks a rule of the language: a `Diagnostic`.  The front end hands over a tree of
the wrong shape: a `ShapeError`.  A caller of this library uses a step outside its
preconditions: a `Fault`, which a tree that passed the checker never causes.
-/

namespace TreeWat

/-- A step used outside its preconditions. -/
inductive Fault where
  /-- A scope was closed when none was open. -/
  | closeNone
  /-- A function was declared in a local scope. -/
  | functionInLocalScope (variant : Variant)
  /-- A variable was declared when no scope was open. -/
  | declareNowhere
  /-- A name was lowered that carries no scope. -/
  | noScope
  /-- A `break` was lowered outside every loop. -/
  | noLoop
  /-- A call that takes a string was lowered without arguments. -/
  | noArgument
  /-- A function has more parameters than its scope has variables. -/
  | noVariables
  /-- A fault stated in words. -/
  | other (text : Bytes)
  deriving DecidableEq, Repr

/-- The wording of a fault, where there is one. -/
def Fault.text? : Fault → Option Bytes
  | .closeNone => some (utf8 "scope: pop of empty stack")
  | .functionInLocalScope v =>
    some (utf8 "scope: DeclareFunc on a " ++ v.text ++ utf8 " scope")
  | .other text => some text
  | _ => none

/-- Why a step ended early. -/
inductive Failure where
  | user (d : Diagnostic)
  | shape (e : ShapeError)
  | fault (f : Fault)
  deriving DecidableEq, Repr

/-- The outcome of a step. -/
abbrev Outcome (α : Type) : Type := Except Failure α

/-- A question about the shape of a tree, as an outcome. -/
def Outcome.ofShape {α : Type} : Except ShapeError α → Outcome α
  | .ok a => .ok a
  | .error e => .error (.shape e)

/-- A question about the rules of the language, as an outcome. -/
def Outcome.ofRule {α : Type} : Except Diagnostic α → Outcome α
  | .ok a => .ok a
  | .error d => .error (.user d)

end TreeWat
