import TreeWat.Scope.Basic
import TreeWat.Tree.Basic
set_option autoImplicit false

/-!
# Scope: all scopes of a run

`Scopes` holds every scope of one checking run: the runtime library, the user's
globals, and the scopes opened on the way, numbered from zero.  Notes on tree nodes
refer to scopes by `ScopeId`, so a scope can still gain bindings after it was noted.
-/

namespace TreeWat

/-- Every scope of a checking run. -/
structure Scopes where
  builtins : Scope
  globals : Scope
  /-- Scopes opened later, oldest first. -/
  opened : List Scope
  deriving DecidableEq, Repr

namespace Scopes

/-- The scopes at the start of a run. -/
def initial : Scopes :=
  ⟨.builtins, .globals, []⟩

/-- The scope with the given name.  A number that was never handed out names an
empty region. -/
def get (st : Scopes) : ScopeId → Scope
  | .builtins => st.builtins
  | .globals => st.globals
  | .opened n => st.opened.getD n default

/-- Puts `s` in the place of the named scope. -/
def set (st : Scopes) (id : ScopeId) (s : Scope) : Scopes :=
  match id with
  | .builtins => { st with builtins := s }
  | .globals => { st with globals := s }
  | .opened n => { st with opened := st.opened.set n s }

/-- Adds a scope; its name is the second component. -/
def add (st : Scopes) (s : Scope) : Scopes × ScopeId :=
  ({ st with opened := st.opened ++ [s] }, .opened st.opened.length)

/-- The tag of a scope. -/
def tag (st : Scopes) (id : ScopeId) : Bytes :=
  (st.get id).tag

/-- The function a call refers to.  The user's functions come before the runtime
library; the entry point cannot be called. -/
def resolveCall (st : Scopes) (name : Bytes) (loc : Location) :
    Except Diagnostic (ScopeId × Signature) :=
  match st.globals.func? name with
  | some sig => .ok (.globals, sig)
  | none =>
    match st.builtins.func? name with
    | some sig => .ok (.builtins, sig)
    | none =>
      if name = st.globals.entryPoint then .error (.callMain name loc)
      else .error (.undeclaredFunction name loc)

/-- The innermost scope of `stack` that binds `name` as a variable. -/
def lookup (st : Scopes) (stack : List ScopeId) (name : Bytes) (loc : Location) :
    Except Diagnostic (ScopeId × Ty) :=
  match stack.findSome? fun id => ((st.get id).var? name).map (id, ·) with
  | some found => .ok found
  | none => .error (.undeclaredVariable name loc)

/-- The innermost scope of `stack` of the given variant. -/
def nearest? (st : Scopes) (stack : List ScopeId) (v : Variant) : Option ScopeId :=
  stack.find? fun id => (st.get id).variant = v

end Scopes

end TreeWat
