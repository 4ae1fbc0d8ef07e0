import TreeWat.Check.Program
import TreeWat.Lower.Program
import TreeWat.Tree.Reader
import TreeWat.Wat.Printer
set_option autoImplicit false

/-!
# Compiler: from source text to module text

Reading, checking, lowering and printing, in this order.  The first failure ends the
run, and no code is generated for a program with an error.
-/

namespace TreeWat.Compiler

open Wat (Op)

/-- Why a source text has no module. -/
inductive Error where
  /-- The text is no tree. -/
  | read (e : Tree.ReadError)
  /-- The tree was rejected. -/
  | failure (f : Failure)
  deriving Repr

/-- A compiled program: the tree with its notes, the scopes, the module. -/
structure Result where
  checked : Check.CheckedProgram
  module : Wat.Module Op
  deriving Repr

/-- The text of the module. -/
def Result.wat (r : Result) : Bytes :=
  r.module.print Op.text

/-- Checks and lowers a tree. -/
def compile (debug : Bool) (root : Node) : Outcome Result :=
  match Check.checkProgram root with
  | .error f => .error f
  | .ok checked =>
    match Lower.program ⟨checked.scopes, debug⟩ checked.tree with
    | .error f => .error f
    | .ok m => .ok ⟨checked, m⟩

/-- Reads and compiles a source text. -/
def compileSource (debug : Bool) (src : Bytes) : Except Error Result :=
  match Tree.read src with
  | .error e => .error (.read e)
  | .ok root =>
    match compile debug root with
    | .error f => .error (.failure f)
    | .ok r => .ok r

end TreeWat.Compiler
