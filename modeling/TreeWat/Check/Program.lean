import TreeWat.Check.Exit
import TreeWat.Check.Globals
import TreeWat.Check.Statement
set_option autoImplicit false

/-!
# Check: whole programs

A program is checked in three rounds: the global declarations are collected, every
function body is checked, and every function with a result is required to return.
The first failure ends the run.
-/

namespace TreeWat.Check

/-- Checks the bodies of a list of declarations, up to the first failure. -/
def checkBodiesOf (c : Context) : List Node → Outcome Unit × List Node × Context
  | [] => (.ok (), [], c)
  | d :: rest =>
    if d.kind = .functionDeclaration ∨ d.kind = .entryPointDeclaration then
      match checkFunction c d with
      | (.error e, d', c') => (.error e, d' :: rest, c')
      | (.ok (), d', c') =>
        match checkBodiesOf c' rest with
        | (o, rest', c'') => (o, d' :: rest', c'')
    else
      match checkBodiesOf c rest with
      | (o, rest', c') => (o, d :: rest', c')

/-- Checks every function body of a program. -/
def checkBodies (c : Context) (root : Node) : Outcome Unit × Node × Context :=
  match checkBodiesOf c root.children with
  | (o, decls, c') => (o, { root with children := decls }, c')

/-- Checks a program in a given context. -/
def checkProgramIn (c : Context) (root : Node) : Outcome Unit × Node × Context :=
  match collectGlobals c root with
  | (.error e, root', c') => (.error e, root', c')
  | (.ok (), root', c') =>
    match checkBodies c' root' with
    | (.error e, root'', c'') => (.error e, root'', c'')
    | (.ok (), root'', c'') => (checkAllReturns c''.scopes root'', root'', c'')

/-- A program that passed the checker: the tree with its notes, and the scopes they
refer to. -/
structure CheckedProgram where
  tree : Node
  scopes : Scopes
  deriving Repr

/-- Checks a program. -/
def checkProgram (root : Node) : Outcome CheckedProgram :=
  match checkProgramIn .initial root with
  | (.error e, _, _) => .error e
  | (.ok (), tree, c) => .ok ⟨tree, c.scopes⟩

/-! ## Listing the scopes -/

/-- The scopes noted on a list of nodes that are not in `seen`, each once, in the
order in which they first occur. -/
def newScopes (seen : List ScopeId) : List Node → List ScopeId
  | [] => []
  | n :: rest =>
    match n.scope? with
    | some id => if seen.contains id then newScopes seen rest
      else id :: newScopes (id :: seen) rest
    | none => newScopes seen rest

/-- Every scope of a checked program: the two program-wide ones, then those noted on
the tree. -/
def CheckedProgram.allScopes (p : CheckedProgram) : List ScopeId :=
  [.builtins, .globals] ++ newScopes [.globals, .builtins] p.tree.preorder

/-- The contents of every scope, with an empty line between them. -/
def CheckedProgram.scopesText (p : CheckedProgram) : Bytes :=
  Bytes.join (utf8 "\n") (p.allScopes.map fun id => (p.scopes.get id).text)

/-- The tree with its notes, one node per line. -/
def CheckedProgram.dump (p : CheckedProgram) : Bytes :=
  p.tree.dump p.scopes.tag

end TreeWat.Check
