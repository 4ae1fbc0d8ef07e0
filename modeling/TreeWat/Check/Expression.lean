import TreeWat.Check.Context
import TreeWat.Tree.Printer
set_option autoImplicit false

/-!
# Check: expressions

Computes the type of an expression and notes it on every node.  Operands come left
to right before their operator; the arguments of a call come before its name is
resolved.  The first breach of a rule ends the check, and the tree is returned with
the notes made up to there.

Checking an expression reads the context and never changes it, which the type of
`checkExpression` says.
-/

namespace TreeWat

/-! ## Typing rules of operators -/

/-- The operand an operator rejects, and the name of what it expected there. -/
inductive BinaryOp.Rejects where
  | left (want : Bytes)
  | right (want : Bytes)
  deriving DecidableEq, Repr

/-- The rule of operators whose operands share the type `operand`. -/
def BinaryOp.uniform (operand result left right : Ty) : Except BinaryOp.Rejects Ty :=
  if left ≠ operand then .error (.left operand.text)
  else if right ≠ operand then .error (.right operand.text)
  else .ok result

/-- The type of a binary expression, from the types of its operands. -/
def BinaryOp.typing (op : BinaryOp) (left right : Ty) : Except BinaryOp.Rejects Ty :=
  match op with
  | .assign => if right ≠ left then .error (.right left.text) else .ok left
  | .eq | .ne =>
    if !left.hasValue then .error (.left (utf8 "int or boolean"))
    else if right ≠ left then .error (.right left.text)
    else .ok .boolean
  | .add | .sub | .mul | .div | .mod => BinaryOp.uniform .int .int left right
  | .lt | .gt | .le | .ge => BinaryOp.uniform .int .boolean left right
  | .and | .or => BinaryOp.uniform .boolean .boolean left right

/-- The type of both the operand and the result of a unary operator. -/
def UnaryOp.operand : UnaryOp → Ty
  | .neg => .int
  | .not => .boolean

namespace Check

/-- An operand of the wrong type. -/
def mismatch (operand : Node) (want : Bytes) : Failure :=
  .user (.typeMismatch operand.render operand.loc want)

/-- Notes the type of an expression on its node. -/
def conclude (n : Node) (ty : Ty) (scope : Option ScopeId) : Outcome Ty × Node :=
  match n.annotate ty.text scope with
  | .error e => (.error (.shape e), n)
  | .ok n' => (.ok ty, n')

/-- The first argument whose type is not the parameter's, with that parameter. -/
def firstMismatch : List Node → List Ty → List Ty → Option (Node × Ty)
  | arg :: args, ty :: tys, want :: wants =>
    if ty ≠ want then some (arg, want) else firstMismatch args tys wants
  | _, _, _ => none

/-- Matches a call against the function it names, and notes callee and call. `n` is
the call with its callee and its argument list, and `args` are its arguments, of the
types `tys`. -/
def concludeCall (c : Context) (n callee argList : Node) (args : List Node)
    (tys : List Ty) : Outcome Ty × Node :=
  match c.scopes.resolveCall callee.attr n.loc with
  | .error d => (.error (.user d), { n with children := [callee, argList] })
  | .ok (owner, sig) =>
    if tys.length ≠ sig.params.length then
      (.error (.user (.argumentCount n.render n.loc)), { n with children := [callee, argList] })
    else
      match firstMismatch args tys sig.params with
      | some (arg, want) =>
        (.error (mismatch arg want.text), { n with children := [callee, argList] })
      | none =>
        match callee.annotate (Signature.text ⟨tys, sig.result⟩) (some owner) with
        | .error e => (.error (.shape e), { n with children := [callee, argList] })
        | .ok callee' => conclude { n with children := [callee', argList] } sig.result none

mutual

/-- The type of an expression, and the expression with its notes. -/
def checkExpression (c : Context) (n : Node) : Outcome Ty × Node :=
  match n with
  | ⟨kind, attr, loc, note, children⟩ =>
    let n : Node := ⟨kind, attr, loc, note, children⟩
    match kind with
    | .id =>
      match c.lookup attr loc with
      | .error d => (.error (.user d), n)
      | .ok (owner, ty) => conclude n ty (some owner)
    | .num => conclude n .int none
    | .trueLiteral => conclude n .boolean none
    | .falseLiteral => conclude n .boolean none
    | .string => conclude n .string none
    | .functionInvocation =>
      match children with
      | [callee, ⟨listKind, listAttr, listLoc, listNote, args⟩] =>
        let argList : Node := ⟨listKind, listAttr, listLoc, listNote, args⟩
        if callee.kind ≠ .id then
          (.error (.shape (callee.malformed (.wrongKind [Kind.id.text]))), n)
        else if listKind ≠ .argumentList then
          (.error (.shape (argList.malformed (.wrongKind [Kind.argumentList.text]))), n)
        else
          match checkExpressions c args with
          | (.error e, args') =>
            (.error e, { n with children := [callee, { argList with children := args' }] })
          | (.ok tys, args') =>
            concludeCall c n callee { argList with children := args' } args tys
      | _ => (.error (.shape (n.malformed (.childCount 2 children.length))), n)
    | .binary op =>
      match children with
      | [l, r] =>
        if op = .assign ∧ l.kind ≠ .id then
          (.error (.shape (l.malformed (.wrongKind [Kind.id.text]))), n)
        else
          match checkExpression c l with
          | (.error e, l') => (.error e, { n with children := [l', r] })
          | (.ok left, l') =>
            match checkExpression c r with
            | (.error e, r') => (.error e, { n with children := [l', r'] })
            | (.ok right, r') =>
              match op.typing left right with
              | .error (.left want) =>
                (.error (mismatch l want), { n with children := [l', r'] })
              | .error (.right want) =>
                (.error (mismatch r want), { n with children := [l', r'] })
              | .ok ty => conclude { n with children := [l', r'] } ty none
      | _ => (.error (.shape (n.malformed (.childCount 2 children.length))), n)
    | .unary op =>
      match children with
      | [e] =>
        match checkExpression c e with
        | (.error err, e') => (.error err, { n with children := [e'] })
        | (.ok ty, e') =>
          if ty ≠ op.operand then
            (.error (mismatch e op.operand.text), { n with children := [e'] })
          else conclude { n with children := [e'] } op.operand none
      | _ => (.error (.shape (n.malformed (.childCount 1 children.length))), n)
    | _ => (.error (.shape (n.malformed .notAnExpression)), n)

/-- The types of several expressions, left to right. -/
def checkExpressions (c : Context) : List Node → Outcome (List Ty) × List Node
  | [] => (.ok [], [])
  | e :: rest =>
    match checkExpression c e with
    | (.error err, e') => (.error err, e' :: rest)
    | (.ok ty, e') =>
      match checkExpressions c rest with
      | (.error err, rest') => (.error err, e' :: rest')
      | (.ok tys, rest') => (.ok (ty :: tys), e' :: rest')

end

/-- Checks that an expression is a condition. -/
def checkCondition (c : Context) (cond : Node) : Outcome Unit × Node :=
  match checkExpression c cond with
  | (.error e, cond') => (.error e, cond')
  | (.ok ty, cond') =>
    if ty ≠ .boolean then (.error (mismatch cond Ty.boolean.text), cond')
    else (.ok (), cond')

end Check

end TreeWat
