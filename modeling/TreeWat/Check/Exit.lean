import TreeWat.Check.Context
set_option autoImplicit false

/-!
# Check: how control leaves a statement

Every function with a result has to return on all paths.  A block takes the first
decisive classification among its statements, a conditional with two arms is
decisive if its arms agree, and a loop never is.  A bare call of the built-in `halt`
counts as a return, since control does not come back from it.
-/

namespace TreeWat.Check

/-- How control leaves a statement. -/
inductive Exit where
  /-- It may go on behind the statement. -/
  | doesNotAlwaysReturn
  | alwaysReturns
  | alwaysBreaks
  deriving DecidableEq, Repr, Inhabited

/-- The name of a classification. -/
def Exit.text : Exit → Bytes
  | .doesNotAlwaysReturn => utf8 "DoesNotAlwaysReturn"
  | .alwaysReturns => utf8 "AlwaysReturns"
  | .alwaysBreaks => utf8 "AlwaysBreaks"

/-- Whether a call of `name` runs the built-in `halt` and not a user function of
that name. -/
def halts (scopes : Scopes) (name : Bytes) : Bool :=
  name == utf8 "halt" && (scopes.globals.func? name).isNone
    && (scopes.builtins.func? name).isSome

mutual

/-- How control leaves a statement. -/
def exitOf (scopes : Scopes) (n : Node) : Except ShapeError Exit :=
  match n with
  | ⟨kind, attr, loc, note, children⟩ =>
    let n : Node := ⟨kind, attr, loc, note, children⟩
    match kind with
    | .block => exitOfAll scopes children
    | .return => .ok .alwaysReturns
    | .break => .ok .alwaysBreaks
    | .ifElse =>
      match children with
      | _ :: arm₁ :: arm₂ :: _ =>
        match exitOf scopes arm₁ with
        | .error e => .error e
        | .ok e₁ =>
          match exitOf scopes arm₂ with
          | .error e => .error e
          | .ok e₂ => if e₁ = e₂ then .ok e₁ else .ok .doesNotAlwaysReturn
      | [_, arm₁] =>
        match exitOf scopes arm₁ with
        | .error e => .error e
        | .ok _ => .error (n.malformed (.missingChild 3 2))
      | _ => .error (n.malformed (.missingChild 2 children.length))
    | .functionInvocation =>
      match children with
      | callee :: _ =>
        if halts scopes callee.attr then .ok .alwaysReturns else .ok .doesNotAlwaysReturn
      | [] => .error (n.malformed (.missingChild 1 0))
    | _ => .ok .doesNotAlwaysReturn

/-- How control leaves a sequence of statements. -/
def exitOfAll (scopes : Scopes) : List Node → Except ShapeError Exit
  | [] => .ok .doesNotAlwaysReturn
  | s :: rest =>
    match exitOf scopes s with
    | .error e => .error e
    | .ok .doesNotAlwaysReturn => exitOfAll scopes rest
    | .ok e => .ok e

end

/-- Requires one declaration, if it is a function with a result, to return on all
paths. -/
def checkReturns (scopes : Scopes) (decl : Node) : Outcome Unit :=
  if decl.kind = .functionDeclaration ∨ decl.kind = .entryPointDeclaration then do
    let result ← Outcome.ofShape (decl.child 0 >>= typeOf)
    if result = .void then .ok ()
    else do
      let exit ← Outcome.ofShape (decl.child 3 >>= exitOf scopes)
      if exit = .alwaysReturns then .ok ()
      else do
        let id ← Outcome.ofShape (decl.child 1)
        .error (.user (.doesNotReturn id.attr decl.loc result))
  else .ok ()

/-- Requires every function with a result to return on all paths. -/
def checkAllReturns (scopes : Scopes) (root : Node) : Outcome Unit :=
  root.children.forM (checkReturns scopes)

end TreeWat.Check
