import TreeWat.Compiler
set_option autoImplicit false

/-!
# Session: checking and lowering step by step

A session keeps one checking context and one lowering state and takes steps one at a
time: it reads trees, checks and lowers parts of them, opens and closes scopes, and
declares names by hand.  Trees and scopes can be given names and used again, notes
included.

A user error leaves the session open.  A tree of the wrong shape and a step outside
its preconditions end it.
-/

namespace TreeWat

/-- What a step does with a tree. -/
inductive TreeAction where
  | read
  | dump
  | checkStatement
  | checkExpression
  | checkFunction
  | collectGlobals
  | checkBodies
  | checkReturns
  | exit
  | lowerStatement
  | lowerExpression
  | lowerFunction
  | generate
  deriving DecidableEq, Repr

/-- Where a step takes its tree from. -/
inductive TreeSource where
  /-- A text, whose tree may be remembered under a name. -/
  | text (src : Bytes) (remember : Option Bytes)
  /-- A remembered tree. -/
  | named (name : Bytes)
  deriving DecidableEq, Repr

/-- One step of a session. -/
inductive SessionStep where
  /-- Acts on the node that the path leads to. -/
  | tree (action : TreeAction) (source : TreeSource) (path : List Int64)
  /-- Opens a scope and remembers it under a name. -/
  | push (name : Bytes) (scope : Scope)
  | pop
  | top
  | nearest (variant : Option Variant)
  | lookup (name : Bytes) (loc : Location)
  | resolve (name : Bytes) (loc : Location)
  | declare (scope : Bytes) (name : Bytes) (ty : Ty) (loc : Location)
  | declareFunc (scope : Bytes) (name : Bytes) (sig : Signature) (loc : Location)
  | entryPoint (scope : Bytes) (name : Bytes) (loc : Location)
  | inspect (scope : Bytes)
  deriving Repr

/-- The answer to a step. -/
inductive SessionAnswer where
  | done
  | failed (f : Failure)
  | unreadable (e : Tree.ReadError)
  /-- The outcome of a check, and the tree behind it. -/
  | noted (outcome : Outcome Unit) (dump : Bytes)
  | typed (outcome : Outcome Ty) (dump : Bytes)
  | dump (text : Bytes)
  | exit (e : Check.Exit)
  /-- Code, and the size of the literals so far. -/
  | code (text : Bytes) (size : Nat)
  | module (text : Bytes)
  | popped (tag : Bytes)
  | top (tag : Option Bytes) (depth : Nat)
  | nearest (tag : Option Bytes)
  | variable (tag : Bytes) (ty : Ty)
  | function (tag : Bytes) (sig : Signature)
  | scope (s : Scope)
  deriving Repr

/-- Whether an answer ends the session. -/
def SessionAnswer.isFatal : SessionAnswer → Bool
  | .failed (.user _) => false
  | .failed _ => true
  | .noted (.error (.user _)) _ => false
  | .noted (.error _) _ => true
  | .typed (.error (.user _)) _ => false
  | .typed (.error _) _ => true
  | _ => false

/-- The state of a session. -/
structure Session where
  context : Check.Context
  lowering : Lower.State
  debug : Bool
  /-- Remembered trees, latest first. -/
  trees : List (Bytes × Node)
  /-- Remembered scopes, latest first. -/
  named : List (Bytes × ScopeId)
  deriving Repr

namespace Session

/-- A fresh session. -/
def initial (debug : Bool) : Session :=
  ⟨.initial, .initial, debug, [], [(utf8 "D", .builtins), (utf8 "G", .globals)]⟩

/-- The tags of the open scopes, outermost first. -/
def stackTags (s : Session) : List Bytes :=
  s.context.stack.reverse.map s.context.scopes.tag

/-- The scope remembered under a name; an unknown name means the globals. -/
def scopeNamed (s : Session) (name : Bytes) : ScopeId :=
  (s.named.lookup name).getD .globals

/-- What lowering reads. -/
def env (s : Session) : Lower.Env :=
  ⟨s.context.scopes, s.debug⟩

/-- Answers with the outcome of a check, and the tree it leaves. -/
def noted (s : Session) (r : Outcome Unit × Node × Check.Context) :
    SessionAnswer × Node × Session :=
  (.noted r.1 (r.2.1.dump r.2.2.scopes.tag), r.2.1, { s with context := r.2.2 })

/-- Answers with the code a lowering step gives. -/
def lowered (s : Session) (n : Node) (step : Lower.Step Bytes) :
    SessionAnswer × Node × Session :=
  match step s.lowering with
  | .error f => (.failed f, n, s)
  | .ok (text, st) => (.code text st.literals.size, n, { s with lowering := st })

/-- Acts on one node: the answer, the node behind it, and the session. -/
def act (s : Session) (action : TreeAction) (n : Node) : SessionAnswer × Node × Session :=
  match action with
  | .read => (.done, n, s)
  | .dump => (.dump (n.dump s.context.scopes.tag), n, s)
  | .checkStatement => s.noted (Check.checkStatement s.context n)
  | .checkFunction => s.noted (Check.checkFunction s.context n)
  | .collectGlobals => s.noted (Check.collectGlobals s.context n)
  | .checkBodies => s.noted (Check.checkBodies s.context n)
  | .checkExpression =>
    match Check.checkExpression s.context n with
    | (o, n') => (.typed o (n'.dump s.context.scopes.tag), n', s)
  | .checkReturns =>
    match Check.checkAllReturns s.context.scopes n with
    | .error f => (.failed f, n, s)
    | .ok () => (.done, n, s)
  | .exit =>
    match Check.exitOf s.context.scopes n with
    | .error e => (.failed (.shape e), n, s)
    | .ok e => (.exit e, n, s)
  | .lowerStatement => s.lowered n do
    let code ← Lower.statement s.env [] n
    pure (Wat.printBody Wat.Op.text code)
  | .lowerExpression => s.lowered n do
    let code ← Lower.topExpression s.env n
    pure (Wat.printBody Wat.Op.text code)
  | .lowerFunction => s.lowered n do
    let f ← Lower.function s.env n
    let m : Wat.Module Wat.Op := ⟨[], [f], [], none, 0, []⟩
    pure (m.print Wat.Op.text)
  | .generate =>
    match Lower.program s.env n with
    | .error f => (.failed f, n, s)
    | .ok m => (.module (m.print Wat.Op.text), n, s)

/-- Acts on the node at `path` below `root`; `remember` gets the whole tree back. -/
def actAt (s : Session) (action : TreeAction) (root : Node) (path : List Int64)
    (remember : Option Bytes) : SessionAnswer × Session :=
  match root.descend path with
  | .error e => (.failed (.shape e), s)
  | .ok n =>
    match s.act action n with
    | (answer, n', s') =>
      match remember with
      | none => (answer, s')
      | some name =>
        (answer, { s' with trees := (name, root.replaceAt n' path) :: s'.trees })

/-- Answers a declaration by hand. -/
def declared (s : Session) : Outcome Check.Context → SessionAnswer × Session
  | .error f => (.failed f, s)
  | .ok c => (.done, { s with context := c })

/-- Takes one step. -/
def step (s : Session) : SessionStep → SessionAnswer × Session
  | .tree action (.text src remember) path =>
    match Tree.read src with
    | .error e => (.unreadable e, s)
    | .ok root => s.actAt action root path remember
  | .tree action (.named name) path =>
    match s.trees.lookup name with
    | none => (.done, s)
    | some root => s.actAt action root path (some name)
  | .push name scope =>
    match s.context.push scope with
    | (c, id) => (.done, { s with context := c, named := (name, id) :: s.named })
  | .pop =>
    match s.context.pop with
    | .error f => (.failed f, s)
    | .ok (c, id) => (.popped (c.scopes.tag id), { s with context := c })
  | .top =>
    (.top (s.context.top?.map s.context.scopes.tag) s.context.stack.length, s)
  | .nearest variant =>
    (.nearest ((variant.bind s.context.nearest?).map s.context.scopes.tag), s)
  | .lookup name loc =>
    match s.context.lookup name loc with
    | .error d => (.failed (.user d), s)
    | .ok (id, ty) => (.variable (s.context.scopes.tag id) ty, s)
  | .resolve name loc =>
    match s.context.scopes.resolveCall name loc with
    | .error d => (.failed (.user d), s)
    | .ok (id, sig) => (.function (s.context.scopes.tag id) sig, s)
  | .declare scope name ty loc =>
    s.declared (.ofRule (s.context.declare (s.scopeNamed scope) name ty loc))
  | .declareFunc scope name sig loc =>
    s.declared (s.context.declareFunc (s.scopeNamed scope) name sig loc)
  | .entryPoint scope name loc =>
    s.declared (.ofRule (s.context.setEntryPoint (s.scopeNamed scope) name loc))
  | .inspect scope => (.scope (s.context.scopes.get (s.scopeNamed scope)), s)

/-- Takes steps up to the first fatal answer.  Beside each answer stand the tags of
the scopes open behind it. -/
def run (s : Session) : List SessionStep → List (SessionAnswer × List Bytes)
  | [] => []
  | st :: rest =>
    match s.step st with
    | (answer, s') =>
      if answer.isFatal then [(answer, s'.stackTags)]
      else (answer, s'.stackTags) :: s'.run rest

end Session

end TreeWat
