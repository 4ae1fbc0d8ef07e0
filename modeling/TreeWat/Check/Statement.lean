import TreeWat.Check.Expression
set_option autoImplicit false

/-!
# Check: statements and functions

A statement is checked against the open scopes.  A nested block, an arm of a
conditional and the body of a loop each get a scope of their own; a block in the
place of an arm or body shares the scope opened for it.  A function opens one scope
for its parameters and the variables its body declares directly.

A check returns the tree with its notes and the context it leaves, whether or not
it succeeds; the open scopes are then those that were open before.
-/

namespace TreeWat.Check

/-- Checks a `return` against the enclosing function. -/
def checkReturn (c : Context) (n : Node) : Outcome Unit × Node :=
  match c.nearest? .function with
  | none => (.error (.shape (n.malformed .returnOutsideFunction)), n)
  | some fn =>
    let want := (c.scopes.get fn).result
    if want = .void then
      if n.children.isEmpty then (.ok (), n)
      else (.error (.user (.noArguments (utf8 "return") n.loc)), n)
    else
      match n.children with
      | [] => (.error (.user (.missingValue n.loc want)), n)
      | [value] =>
        match checkExpression c value with
        | (.error e, value') => (.error e, { n with children := [value'] })
        | (.ok got, value') =>
          if got ≠ want then
            (.error (.user (.typeMismatch value.render n.loc want.text)),
              { n with children := [value'] })
          else (.ok (), { n with children := [value'] })
      | _ => (.error (.shape (n.malformed (.childCount 1 n.children.length))), n)

/-- Checks a `break`, which belongs to the innermost loop. -/
def checkBreak (c : Context) (n : Node) : Outcome Unit × Node :=
  match c.nearest? .loop with
  | none => (.error (.user (.breakNotInLoop n.loc)), n)
  | some loop =>
    if !n.children.isEmpty then (.error (.user (.noArguments (utf8 "break") n.loc)), n)
    else
      match n.annotate [] (some loop) with
      | .error e => (.error (.shape e), n)
      | .ok n' => (.ok (), n')

/-- Checks a variable declaration, which has to stand directly in a function. -/
def checkVariable (c : Context) (n : Node) : Outcome Unit × Node × Context :=
  match typedName n with
  | .error e => (.error (.shape e), n, c)
  | .ok (ty, id) =>
    match c.top? with
    | none => (.error (.fault .declareNowhere), n, c)
    | some top =>
      if (c.scopes.get top).variant ≠ .function then
        (.error (.user (.innerDeclaration ty id.attr n.loc)), n, c)
      else
        match c.declare top id.attr ty id.loc with
        | .error d => (.error (.user d), n, c)
        | .ok c' =>
          match id.annotate ty.text (some top) with
          | .error e => (.error (.shape e), n, c')
          | .ok id' => (.ok (), { n with children := n.children.set 1 id' }, c')

mutual

/-- Checks one statement.  `own` names the scope opened for the statement, if it is
an arm or a loop body; a block then uses that scope. -/
def checkStatementIn (own : Option ScopeId) (c : Context) (n : Node) :
    Outcome Unit × Node × Context :=
  match n with
  | ⟨kind, attr, loc, note, children⟩ =>
    let n : Node := ⟨kind, attr, loc, note, children⟩
    match kind with
    | .block =>
      let inside := match own with
        | some id => (c, id)
        | none => c.enter fun tag => .empty .block tag loc
      match n.annotate [] (some inside.2) with
      | .error e => (.error (.shape e), n, inside.1.leaveBlock own)
      | .ok n' =>
        match checkStatements inside.1 children with
        | (o, children', c') => (o, { n' with children := children' }, c'.leaveBlock own)
    | .variableDeclaration => checkVariable c n
    | .statementExpression =>
      match children with
      | [e] =>
        match checkExpression c e with
        | (.error err, e') => (.error err, { n with children := [e'] }, c)
        | (.ok _, e') => (.ok (), { n with children := [e'] }, c)
      | _ => (.error (.shape (n.malformed (.childCount 1 children.length))), n, c)
    | .functionInvocation =>
      match checkExpression c n with
      | (.error err, n') => (.error err, n', c)
      | (.ok _, n') => (.ok (), n', c)
    | .nullStatement => (.ok (), n, c)
    | .ifThen =>
      match children with
      | [cond, arm] =>
        match checkCondition c cond with
        | (.error e, cond') => (.error e, { n with children := [cond', arm] }, c)
        | (.ok (), cond') =>
          let inside := c.enter fun tag => .empty .block tag arm.loc
          match checkStatementIn (some inside.2) inside.1 arm with
          | (o, arm', c') => (o, { n with children := [cond', arm'] }, c'.leave)
      | _ => (.error (.shape (n.malformed (.childCount 2 children.length))), n, c)
    | .ifElse =>
      match children with
      | [cond, arm₁, arm₂] =>
        match checkCondition c cond with
        | (.error e, cond') => (.error e, { n with children := [cond', arm₁, arm₂] }, c)
        | (.ok (), cond') =>
          let inside₁ := c.enter fun tag => .empty .block tag arm₁.loc
          match checkStatementIn (some inside₁.2) inside₁.1 arm₁ with
          | (.error e, arm₁', c₁) =>
            (.error e, { n with children := [cond', arm₁', arm₂] }, c₁.leave)
          | (.ok (), arm₁', c₁) =>
            let inside₂ := c₁.leave.enter fun tag => .empty .block tag arm₂.loc
            match checkStatementIn (some inside₂.2) inside₂.1 arm₂ with
            | (o, arm₂', c₂) =>
              (o, { n with children := [cond', arm₁', arm₂'] }, c₂.leave)
      | _ => (.error (.shape (n.malformed (.childCount 3 children.length))), n, c)
    | .while =>
      match children with
      | [cond, body] =>
        match checkCondition c cond with
        | (.error e, cond') => (.error e, { n with children := [cond', body] }, c)
        | (.ok (), cond') =>
          let inside := c.enter fun tag => .empty .loop tag body.loc
          match checkStatementIn (some inside.2) inside.1 body with
          | (o, body', c') => (o, { n with children := [cond', body'] }, c'.leave)
      | _ => (.error (.shape (n.malformed (.childCount 2 children.length))), n, c)
    | .return =>
      match checkReturn c n with
      | (o, n') => (o, n', c)
    | .break =>
      match checkBreak c n with
      | (o, n') => (o, n', c)
    | _ => (.error (.shape (n.malformed .notAStatement)), n, c)

/-- Checks statements in order, up to the first failure. -/
def checkStatements (c : Context) : List Node → Outcome Unit × List Node × Context
  | [] => (.ok (), [], c)
  | s :: rest =>
    match checkStatementIn none c s with
    | (.error e, s', c') => (.error e, s' :: rest, c')
    | (.ok (), s', c') =>
      match checkStatements c' rest with
      | (o, rest', c'') => (o, s' :: rest', c'')

end

/-- Checks one statement against the open scopes. -/
def checkStatement (c : Context) (n : Node) : Outcome Unit × Node × Context :=
  checkStatementIn none c n

/-! ## Functions -/

/-- Declares one parameter in the scope `fn`. -/
def checkParameter (fn : ScopeId) (c : Context) (p : Node) : Outcome Unit × Node × Context :=
  match p.expect [.formalParameter] with
  | .error e => (.error (.shape e), p, c)
  | .ok () =>
    match typedName p with
    | .error e => (.error (.shape e), p, c)
    | .ok (ty, id) =>
      match c.declare fn id.attr ty id.loc with
      | .error d => (.error (.user d), p, c)
      | .ok c' =>
        match id.annotate ty.text (some fn) with
        | .error e => (.error (.shape e), p, c')
        | .ok id' => (.ok (), { p with children := p.children.set 1 id' }, c')

/-- Declares the parameters of a function in the scope `fn`. -/
def checkParameters (fn : ScopeId) (c : Context) :
    List Node → Outcome Unit × List Node × Context
  | [] => (.ok (), [], c)
  | p :: rest =>
    match checkParameter fn c p with
    | (.error e, p', c') => (.error e, p' :: rest, c')
    | (.ok (), p', c') =>
      match checkParameters fn c' rest with
      | (o, rest', c'') => (o, p' :: rest', c'')

/-- Checks a function body in the scope `fn`. -/
def checkFunctionBody (fn : ScopeId) (c : Context) (body : Node) :
    Outcome Unit × Node × Context :=
  match body.annotate [] (some fn) with
  | .error e => (.error (.shape e), body, c)
  | .ok body' =>
    match checkStatements c body.children with
    | (o, stmts', c') => (o, { body' with children := stmts' }, c')

/-- Checks one function or entry point inside a scope of its own. -/
def checkFunction (c : Context) (fn : Node) : Outcome Unit × Node × Context :=
  match fn.children with
  | [resultNode, name, params, body] =>
    if body.kind ≠ .block then
      (.error (.shape (body.malformed (.wrongKind [Kind.block.text]))), fn, c)
    else
      match typeOf resultNode with
      | .error e => (.error (.shape e), fn, c)
      | .ok result =>
        let inside := c.enter fun tag => .function tag fn.loc result
        if params.kind ≠ .formalParameterList then
          (.error (.shape (params.malformed (.wrongKind [Kind.formalParameterList.text]))),
            fn, inside.1.leave)
        else
          match checkParameters inside.2 inside.1 params.children with
          | (.error e, ps', c') =>
            (.error e,
              { fn with children := [resultNode, name, { params with children := ps' }, body] },
              c'.leave)
          | (.ok (), ps', c') =>
            match checkFunctionBody inside.2 c' body with
            | (o, body', c'') =>
              (o, { fn with
                    children := [resultNode, name, { params with children := ps' }, body'] },
                c''.leave)
  | _ => (.error (.shape (fn.malformed (.childCount 4 fn.children.length))), fn, c)

end TreeWat.Check
