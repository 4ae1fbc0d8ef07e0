import TreeWat.Failure
import TreeWat.Scope.Store
set_option autoImplicit false

/-!
# Check: the context of a checking run

The context holds every scope of the run, the stack of those that are open at the
moment, and the counter from which scope tags are drawn.  It is a value: a check
takes one and returns one, also when it fails, since what was opened or declared
before the failure stays.
-/

namespace TreeWat.Check

/-- The state of a checking run. -/
structure Context where
  scopes : Scopes
  /-- The open scopes, innermost first. -/
  stack : List ScopeId
  /-- How many tags were handed out. -/
  tags : Nat
  deriving DecidableEq, Repr

namespace Context

/-- The context at the start of a run: only the program-wide scopes are open. -/
def initial : Context :=
  ⟨.initial, [.globals, .builtins], 0⟩

/-- The innermost open scope. -/
def top? (c : Context) : Option ScopeId :=
  c.stack.head?

/-- Opens a scope; its name is the second component. -/
def push (c : Context) (s : Scope) : Context × ScopeId :=
  let added := c.scopes.add s
  ({ c with scopes := added.1, stack := added.2 :: c.stack }, added.2)

/-- Closes the innermost scope and names it. -/
def pop (c : Context) : Outcome (Context × ScopeId) :=
  match c.stack with
  | [] => .error (.fault .closeNone)
  | id :: rest => .ok ({ c with stack := rest }, id)

/-- Opens a scope under the next free tag. -/
def enter (c : Context) (make : Bytes → Scope) : Context × ScopeId :=
  push { c with tags := c.tags + 1 } (make (utf8 "L" ++ Bytes.ofNat (c.tags + 1)))

/-- Closes the innermost scope without naming it. -/
def leave (c : Context) : Context :=
  { c with stack := c.stack.tail }

/-- Closes the scope of a block.  If the block shares the scope `own` of the statement around
it, that statement closes it. -/
def leaveBlock (c : Context) (own : Option ScopeId) : Context :=
  match own with
  | some _ => c
  | none => c.leave

/-- The innermost open scope that binds a variable. -/
def lookup (c : Context) (name : Bytes) (loc : Location) : Except Diagnostic (ScopeId × Ty) :=
  c.scopes.lookup c.stack name loc

/-- The innermost open scope of a variant. -/
def nearest? (c : Context) (v : Variant) : Option ScopeId :=
  c.scopes.nearest? c.stack v

/-- Binds a variable in the named scope. -/
def declare (c : Context) (id : ScopeId) (name : Bytes) (ty : Ty) (loc : Location) :
    Except Diagnostic Context :=
  match (c.scopes.get id).declare name ty loc with
  | .error d => .error d
  | .ok s => .ok { c with scopes := c.scopes.set id s }

/-- Binds a function in the named scope, which has to be program-wide. -/
def declareFunc (c : Context) (id : ScopeId) (name : Bytes) (sig : Signature)
    (loc : Location) : Outcome Context :=
  if (c.scopes.get id).isGlobalStorage then
    match (c.scopes.get id).declareFunc name sig loc with
    | .error d => .error (.user d)
    | .ok s => .ok { c with scopes := c.scopes.set id s }
  else .error (.fault (.functionInLocalScope (c.scopes.get id).variant))

/-- Records the entry point in the named scope. -/
def setEntryPoint (c : Context) (id : ScopeId) (name : Bytes) (loc : Location) :
    Except Diagnostic Context :=
  match (c.scopes.get id).setEntryPoint name loc with
  | .error d => .error d
  | .ok s => .ok { c with scopes := c.scopes.set id s }

end Context

/-! ## Type keywords -/

/-- The type a keyword node stands for. -/
def typeOf (n : Node) : Except ShapeError Ty :=
  match n.kind with
  | .int => .ok .int
  | .boolean => .ok .boolean
  | .void => .ok .void
  | _ => .error (n.malformed (.wrongKind [Kind.int.text, Kind.boolean.text, Kind.void.text]))

/-- The type of a variable or parameter, which cannot be void. -/
def valueTypeOf (n : Node) : Except ShapeError Ty :=
  match n.kind with
  | .int => .ok .int
  | .boolean => .ok .boolean
  | _ => .error (n.malformed (.wrongKind [Kind.int.text, Kind.boolean.text]))

/-- The type and the name of a declaration whose children are a type keyword and
an identifier. -/
def typedName (n : Node) : Except ShapeError (Ty × Node) := do
  n.expectChildren 2
  let ty ← valueTypeOf (← n.child 0)
  let id ← n.child 1
  id.expect [.id]
  .ok (ty, id)

end TreeWat.Check
