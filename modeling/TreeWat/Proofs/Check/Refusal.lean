import TreeWat.Proofs.Check.Expression
set_option autoImplicit false

/-!
# Check: what a refused expression looks like

The other half of `Check.Expression`.  `ExprRefused` lists every way in which
`checkExpression` ends with a diagnostic, one constructor for each place where the
check can stop, together with the tree it leaves behind.  Shape errors are left out:
they blame the front end.
-/

namespace TreeWat

/-! ## Operands that an operator rejects -/

/-- The types an operator takes on its left; `none` if it takes all. -/
def BinaryOp.leftTypes : BinaryOp → Option (List Ty)
  | .assign => none
  | .eq | .ne => some [.int, .boolean]
  | .add | .sub | .mul | .div | .mod | .lt | .gt | .le | .ge => some [.int]
  | .and | .or => some [.boolean]

/-- The names of types, as a phrase. -/
def Ty.alternatives (tys : List Ty) : Bytes :=
  Bytes.join (utf8 " or ") (tys.map Ty.text)

namespace BinaryOp

variable {op : BinaryOp} {operand result left right : Ty} {want : Bytes}

theorem uniform_left (h : uniform operand result left right = .error (.left want)) :
    left ≠ operand ∧ want = operand.text := by
  unfold uniform at h
  split at h
  · cases h
    exact ⟨‹_›, rfl⟩
  · split at h <;> cases h

theorem uniform_right (h : uniform operand result left right = .error (.right want)) :
    left = operand ∧ right ≠ operand ∧ want = operand.text := by
  unfold uniform at h
  split at h
  · cases h
  · rename_i hleft
    split at h <;> cases h
    exact ⟨Decidable.not_not.mp hleft, ‹_›, rfl⟩

/-- A left operand is rejected because its type is not among those the operator takes there. -/
theorem typing_left (h : op.typing left right = .error (.left want)) :
    ∃ tys, op.leftTypes = some tys ∧ left ∉ tys ∧ want = Ty.alternatives tys := by
  cases op with
  | assign =>
    simp only [typing] at h
    split at h <;> cases h
  | eq | ne =>
    simp only [typing] at h
    split at h
    · rename_i hvalue
      cases h
      refine ⟨_, rfl, ?_, by decide⟩
      cases left <;> simp [Ty.hasValue] at hvalue ⊢
    · split at h <;> cases h
  | add | sub | mul | div | mod | lt | gt | le | ge | and | or =>
    obtain ⟨hne, rfl⟩ := uniform_left h
    exact ⟨_, rfl, by simpa using hne, by decide⟩

/-- A right operand is rejected because its type is not that of the left one, which is as the
operator wants it. -/
theorem typing_right (h : op.typing left right = .error (.right want)) :
    (∀ tys, op.leftTypes = some tys → left ∈ tys) ∧ right ≠ left ∧ want = left.text := by
  cases op with
  | assign =>
    simp only [typing] at h
    split at h <;> cases h
    exact ⟨by simp [leftTypes], ‹_›, rfl⟩
  | eq | ne =>
    simp only [typing] at h
    split at h
    · cases h
    · rename_i hvalue
      split at h <;> cases h
      refine ⟨?_, ‹_›, rfl⟩
      cases left <;> simp [Ty.hasValue, leftTypes] at hvalue ⊢
  | add | sub | mul | div | mod | lt | gt | le | ge | and | or =>
    obtain ⟨rfl, hne, rfl⟩ := uniform_right h
    exact ⟨by simp [leftTypes], hne, rfl⟩

end BinaryOp

namespace Check

/-- A rejected argument is the first whose type is not that of its parameter. -/
theorem firstMismatch_eq_some {args : List Node} {tys wants : List Ty} {arg : Node} {want : Ty}
    (h : firstMismatch args tys wants = some (arg, want)) :
    ∃ i ty, args[i]? = some arg ∧ tys[i]? = some ty ∧ wants[i]? = some want ∧ ty ≠ want ∧
      tys.take i = wants.take i := by
  induction args generalizing tys wants with
  | nil => simp [firstMismatch] at h
  | cons first args ih =>
    rcases tys with _ | ⟨ty, tys⟩
    · simp [firstMismatch] at h
    rcases wants with _ | ⟨want', wants⟩
    · simp [firstMismatch] at h
    rw [firstMismatch] at h
    split at h
    · rename_i hne
      cases h
      exact ⟨0, ty, rfl, rfl, rfl, hne, rfl⟩
    · rename_i heq
      obtain ⟨i, ty', harg, hty, hwant, hne, hbefore⟩ := ih h
      refine ⟨i + 1, ty', harg, hty, hwant, hne, ?_⟩
      rw [List.take_succ_cons, List.take_succ_cons, hbefore, Decidable.not_not.mp heq]

/-! ## The ways of failing -/

/-- How a call with accepted arguments is refused. -/
inductive CallRefused (c : Context) (call : Node) (name : Bytes) (args : List Node)
    (tys : List Ty) : Diagnostic → Prop where
  | unresolved {d} (unresolved : c.scopes.resolveCall name call.loc = .error d) :
      CallRefused c call name args tys d
  | count {owner sig} (resolved : c.scopes.resolveCall name call.loc = .ok (owner, sig))
      (count : tys.length ≠ sig.params.length) :
      CallRefused c call name args tys (.argumentCount call.render call.loc)
  | argument {owner sig arg want}
      (resolved : c.scopes.resolveCall name call.loc = .ok (owner, sig))
      (count : tys.length = sig.params.length)
      (mismatch : firstMismatch args tys sig.params = some (arg, want)) :
      CallRefused c call name args tys (.typeMismatch arg.render arg.loc want.text)

/-- How the check of an expression ends with a diagnostic: the expression, what the check leaves
of it, and the diagnostic. -/
inductive ExprRefused (c : Context) : Node → Node → Diagnostic → Prop where
  | id {attr loc note ch d} (notFound : c.lookup attr loc = .error d) :
      ExprRefused c ⟨.id, attr, loc, note, ch⟩ ⟨.id, attr, loc, note, ch⟩ d
  | argument {attr loc note callee listAttr listLoc listNote args args' d}
      (refused : checkExpressions c args = (.error (.user d), args')) :
      ExprRefused c
        ⟨.functionInvocation, attr, loc, note,
          [callee, ⟨.argumentList, listAttr, listLoc, listNote, args⟩]⟩
        ⟨.functionInvocation, attr, loc, note,
          [callee, ⟨.argumentList, listAttr, listLoc, listNote, args'⟩]⟩ d
  | call {attr loc note callee listAttr listLoc listNote args args' tys d}
      (accepted : checkExpressions c args = (.ok tys, args'))
      (refused : CallRefused c
        ⟨.functionInvocation, attr, loc, note,
          [callee, ⟨.argumentList, listAttr, listLoc, listNote, args⟩]⟩ callee.attr args tys d) :
      ExprRefused c
        ⟨.functionInvocation, attr, loc, note,
          [callee, ⟨.argumentList, listAttr, listLoc, listNote, args⟩]⟩
        ⟨.functionInvocation, attr, loc, note,
          [callee, ⟨.argumentList, listAttr, listLoc, listNote, args'⟩]⟩ d
  | left {op attr loc note l r l' d} (refused : checkExpression c l = (.error (.user d), l')) :
      ExprRefused c ⟨.binary op, attr, loc, note, [l, r]⟩
        ⟨.binary op, attr, loc, note, [l', r]⟩ d
  | right {op attr loc note l r l' r' left d} (accepted : checkExpression c l = (.ok left, l'))
      (refused : checkExpression c r = (.error (.user d), r')) :
      ExprRefused c ⟨.binary op, attr, loc, note, [l, r]⟩
        ⟨.binary op, attr, loc, note, [l', r']⟩ d
  | leftType {op attr loc note l r l' r' left right want}
      (acceptedLeft : checkExpression c l = (.ok left, l'))
      (acceptedRight : checkExpression c r = (.ok right, r'))
      (rule : op.typing left right = .error (.left want)) :
      ExprRefused c ⟨.binary op, attr, loc, note, [l, r]⟩
        ⟨.binary op, attr, loc, note, [l', r']⟩ (.typeMismatch l.render l.loc want)
  | rightType {op attr loc note l r l' r' left right want}
      (acceptedLeft : checkExpression c l = (.ok left, l'))
      (acceptedRight : checkExpression c r = (.ok right, r'))
      (rule : op.typing left right = .error (.right want)) :
      ExprRefused c ⟨.binary op, attr, loc, note, [l, r]⟩
        ⟨.binary op, attr, loc, note, [l', r']⟩ (.typeMismatch r.render r.loc want)
  | operand {op attr loc note e e' d} (refused : checkExpression c e = (.error (.user d), e')) :
      ExprRefused c ⟨.unary op, attr, loc, note, [e]⟩ ⟨.unary op, attr, loc, note, [e']⟩ d
  | operandType {op attr loc note e e' ty} (accepted : checkExpression c e = (.ok ty, e'))
      (rule : ty ≠ op.operand) :
      ExprRefused c ⟨.unary op, attr, loc, note, [e]⟩ ⟨.unary op, attr, loc, note, [e']⟩
        (.typeMismatch e.render e.loc op.operand.text)

/-! ## The steps of the checker -/

/-- Noting a type never ends with a diagnostic. -/
theorem conclude_ne_user {n n' : Node} {ty : Ty} {scope : Option ScopeId} {d : Diagnostic} :
    conclude n ty scope ≠ (.error (.user d), n') := by
  unfold conclude
  split <;> simp

/-- Several expressions are refused at the first that is. -/
theorem checkExpressions_cons_user {c : Context} {e : Node} {rest es' : List Node}
    {d : Diagnostic} (h : checkExpressions c (e :: rest) = (.error (.user d), es')) :
    (∃ e', checkExpression c e = (.error (.user d), e') ∧ es' = e' :: rest) ∨
      ∃ ty e' rest', checkExpression c e = (.ok ty, e') ∧
        checkExpressions c rest = (.error (.user d), rest') ∧ es' = e' :: rest' := by
  rw [checkExpressions] at h
  split at h
  · rename_i e' he
    cases h
    exact .inl ⟨e', he, rfl⟩
  · rename_i ty e' he
    split at h <;> cases h
    exact .inr ⟨ty, e', _, he, ‹_›, rfl⟩

theorem concludeCall_user {c : Context} {n callee argList n' : Node} {args : List Node}
    {tys : List Ty} {d : Diagnostic}
    (h : concludeCall c n callee argList args tys = (.error (.user d), n')) :
    CallRefused c n callee.attr args tys d ∧ n' = { n with children := [callee, argList] } := by
  unfold concludeCall at h
  split at h
  · rename_i hres
    cases h
    exact ⟨.unresolved hres, rfl⟩
  · rename_i owner sig hres
    split at h
    · rename_i hcount
      cases h
      exact ⟨.count hres hcount, rfl⟩
    · rename_i hcount
      split at h
      · rename_i arg want hfirst
        cases h
        exact ⟨.argument hres (Decidable.not_not.mp hcount) hfirst, rfl⟩
      · split at h
        · cases h
        · exact absurd h conclude_ne_user

/-! ## The main statement -/

/-- `ExprRefused` lists all diagnostics of `checkExpression`. -/
theorem ExprRefused.of_checkExpression {c : Context} {n n' : Node} {d : Diagnostic}
    (h : checkExpression c n = (.error (.user d), n')) : ExprRefused c n n' d := by
  rcases n with ⟨kind, attr, loc, note, children⟩
  rw [checkExpression.eq_def] at h
  cases kind
  all_goals simp only at h
  case id =>
    split at h
    · rename_i hfound
      cases h
      exact .id hfound
    · exact absurd h conclude_ne_user
  case num | trueLiteral | falseLiteral | string => exact absurd h conclude_ne_user
  case functionInvocation =>
    split at h
    · split at h
      · cases h
      · split at h
        · cases h
        · rename_i hlist
          obtain rfl := Decidable.not_not.mp hlist
          split at h
          · rename_i hargs
            cases h
            exact .argument hargs
          · rename_i hargs
            obtain ⟨hcall, rfl⟩ := concludeCall_user h
            exact .call hargs hcall
    · cases h
  case binary op =>
    split at h
    · split at h
      · cases h
      · split at h
        · rename_i hl
          cases h
          exact .left hl
        · rename_i hl
          split at h
          · rename_i hr
            cases h
            exact .right hl hr
          · rename_i hr
            split at h
            · rename_i hty
              cases h
              exact .leftType hl hr hty
            · rename_i hty
              cases h
              exact .rightType hl hr hty
            · exact absurd h conclude_ne_user
    · cases h
  case unary op =>
    split at h
    · split at h
      · rename_i he
        cases h
        exact .operand he
      · rename_i he
        split at h
        · rename_i hty
          cases h
          exact .operandType he hty
        · exact absurd h conclude_ne_user
    · cases h
  all_goals cases h

end Check

end TreeWat
