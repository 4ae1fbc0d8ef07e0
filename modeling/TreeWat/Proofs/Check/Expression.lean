import TreeWat.Check.Expression
import TreeWat.Proofs.Tree
set_option autoImplicit false

/-!
# Check: what an accepted expression looks like

`ExprAccepted` lists every way in which `checkExpression` ends well, one constructor
for each form of expression, together with the note it leaves behind.  It is not
recursive: what it says about operands and arguments is again that `checkExpression`
accepts them.  `checkExpression_ok_iff` says that the list is complete and that each
entry of it is a success, so no later proof has to unfold the checker.
-/

namespace TreeWat

/-- The type of a literal of this kind. -/
def Kind.literalType? : Kind → Option Ty
  | .num => some .int
  | .trueLiteral => some .boolean
  | .falseLiteral => some .boolean
  | .string => some .string
  | _ => none

/-- Operators with a uniform rule accept two operands of the one type only. -/
theorem BinaryOp.uniform_ok {operand result left right ty : Ty}
    (h : BinaryOp.uniform operand result left right = .ok ty) :
    left = operand ∧ right = operand ∧ ty = result := by
  unfold uniform at h
  split at h
  · simp at h
  · split at h
    · simp at h
    · simp_all

/-- Every operator takes two operands of one type. -/
theorem BinaryOp.typing_operands {op : BinaryOp} {left right ty : Ty}
    (h : op.typing left right = .ok ty) : right = left := by
  cases op with
  | assign | eq | ne =>
    simp only [typing] at h
    by_cases hne : right = left
    · exact hne
    · cases hvalue : left.hasValue <;> simp [hne, hvalue] at h
  | _ =>
    obtain ⟨rfl, rfl, -⟩ := uniform_ok h
    rfl

namespace Check

/-- How the check of an expression ends well: the expression, the expression with its
notes, and the type. -/
inductive ExprAccepted (c : Context) : Node → Node → Ty → Prop where
  | id {attr loc ch owner ty}
      (found : c.lookup attr loc = .ok (owner, ty)) :
      ExprAccepted c ⟨.id, attr, loc, none, ch⟩
        ⟨.id, attr, loc, some ⟨ty.text, some owner⟩, ch⟩ ty
  | literal {kind attr loc ch ty}
      (isLiteral : kind.literalType? = some ty) :
      ExprAccepted c ⟨kind, attr, loc, none, ch⟩
        ⟨kind, attr, loc, some ⟨ty.text, none⟩, ch⟩ ty
  | call {attr loc name nameLoc nameCh listAttr listLoc listNote args args' owner sig}
      (resolved : c.scopes.resolveCall name loc = .ok (owner, sig))
      (accepted : checkExpressions c args = (.ok sig.params, args')) :
      ExprAccepted c
        ⟨.functionInvocation, attr, loc, none, [⟨.id, name, nameLoc, none, nameCh⟩,
          ⟨.argumentList, listAttr, listLoc, listNote, args⟩]⟩
        ⟨.functionInvocation, attr, loc, some ⟨sig.result.text, none⟩,
          [⟨.id, name, nameLoc, some ⟨sig.text, some owner⟩, nameCh⟩,
            ⟨.argumentList, listAttr, listLoc, listNote, args'⟩]⟩ sig.result
  | binary {op attr loc l r l' r' left right ty}
      (target : op = .assign → l.kind = .id)
      (acceptedLeft : checkExpression c l = (.ok left, l'))
      (acceptedRight : checkExpression c r = (.ok right, r'))
      (rule : op.typing left right = .ok ty) :
      ExprAccepted c ⟨.binary op, attr, loc, none, [l, r]⟩
        ⟨.binary op, attr, loc, some ⟨ty.text, none⟩, [l', r']⟩ ty
  | unary {op attr loc e e'}
      (accepted : checkExpression c e = (.ok op.operand, e')) :
      ExprAccepted c ⟨.unary op, attr, loc, none, [e]⟩
        ⟨.unary op, attr, loc, some ⟨op.operand.text, none⟩, [e']⟩ op.operand

/-! ## The steps of the checker -/

theorem conclude_ok_iff {n n' : Node} {ty ty' : Ty} {scope : Option ScopeId} :
    conclude n ty scope = (.ok ty', n') ↔
      n.note = none ∧ ty' = ty ∧ n' = { n with note := some ⟨ty.text, scope⟩ } := by
  unfold conclude Node.annotate
  cases hn : n.note with
  | none => simp [eq_comm]
  | some a => simp

theorem checkExpressions_nil {c : Context} {tys : List Ty} {es' : List Node} :
    checkExpressions c [] = (.ok tys, es') ↔ tys = [] ∧ es' = [] := by
  simp [checkExpressions, eq_comm]

theorem checkExpressions_cons {c : Context} {e : Node} {rest es' : List Node}
    {tys : List Ty} :
    checkExpressions c (e :: rest) = (.ok tys, es') ↔
      ∃ ty e' tys' rest', checkExpression c e = (.ok ty, e') ∧
        checkExpressions c rest = (.ok tys', rest') ∧ tys = ty :: tys' ∧ es' = e' :: rest' := by
  rw [checkExpressions]
  rcases checkExpression c e with ⟨_ | ty, e'⟩
  · simp
  · rcases checkExpressions c rest with ⟨_ | tys', rest'⟩
    · simp
    · constructor
      · intro h
        cases h
        exact ⟨ty, e', tys', rest', rfl, rfl, rfl, rfl⟩
      · rintro ⟨_, _, _, _, he, hrest, rfl, rfl⟩
        cases he
        cases hrest
        rfl

theorem checkExpressions_singleton {c : Context} {es es' : List Node} {ty : Ty}
    (h : checkExpressions c es = (.ok [ty], es')) :
    ∃ e e', es = [e] ∧ es' = [e'] ∧ checkExpression c e = (.ok ty, e') := by
  match es, h with
  | [], h => simp [checkExpressions] at h
  | e :: rest, h =>
    obtain ⟨ty', e', tys', rest', he, hrest, htys, rfl⟩ := checkExpressions_cons.mp h
    cases htys
    match rest, hrest with
    | [], hrest =>
      obtain ⟨-, rfl⟩ := checkExpressions_nil.mp hrest
      exact ⟨e, e', rfl, rfl, he⟩
    | _ :: _, hrest =>
      obtain ⟨_, _, _, _, -, -, hnil, -⟩ := checkExpressions_cons.mp hrest
      cases hnil

theorem checkExpressions_length {c : Context} {es es' : List Node} {tys : List Ty}
    (h : checkExpressions c es = (.ok tys, es')) : tys.length = es.length := by
  induction es generalizing es' tys with
  | nil =>
    obtain ⟨rfl, rfl⟩ := checkExpressions_nil.mp h
    rfl
  | cons e rest ih =>
    obtain ⟨ty, e', tys', rest', -, hrest, rfl, rfl⟩ := checkExpressions_cons.mp h
    rw [List.length_cons, List.length_cons, ih hrest]

/-- No argument is rejected exactly if the types are those of the parameters. -/
theorem firstMismatch_eq_none {args : List Node} {tys wants : List Ty}
    (hargs : tys.length = args.length) (hwants : tys.length = wants.length) :
    firstMismatch args tys wants = none ↔ tys = wants := by
  induction tys generalizing args wants with
  | nil =>
    have : wants = [] := List.length_eq_zero_iff.mp hwants.symm
    simp [this, firstMismatch]
  | cons ty tys ih =>
    cases args with
    | nil => simp at hargs
    | cons arg args =>
      cases wants with
      | nil => simp at hwants
      | cons want wants =>
        simp only [List.length_cons, Nat.add_right_cancel_iff] at hargs hwants
        rw [firstMismatch]
        by_cases hty : ty = want
        · simp [hty, ih hargs hwants]
        · simp [hty]

theorem concludeCall_ok_iff {c : Context} {n callee argList n' : Node} {args : List Node}
    {tys : List Ty} {ty : Ty} (hargs : tys.length = args.length) :
    concludeCall c n callee argList args tys = (.ok ty, n') ↔
      ∃ owner sig, c.scopes.resolveCall callee.attr n.loc = .ok (owner, sig) ∧
        tys = sig.params ∧ callee.note = none ∧ n.note = none ∧ ty = sig.result ∧
        n' = { n with
          note := some ⟨sig.result.text, none⟩
          children := [{ callee with note := some ⟨sig.text, some owner⟩ }, argList] } := by
  unfold concludeCall
  cases c.scopes.resolveCall callee.attr n.loc with
  | error d => simp
  | ok found =>
    obtain ⟨owner, sig⟩ := found
    by_cases hlen : tys.length = sig.params.length
    · have hfirst := firstMismatch_eq_none hargs hlen
      cases hm : firstMismatch args tys sig.params with
      | some bad =>
        have hne : tys ≠ sig.params := fun h => by simp [hfirst.mpr h] at hm
        simp [hlen, hm, hne]
      | none =>
        have htys : tys = sig.params := hfirst.mp hm
        subst htys
        cases hnote : callee.note with
        | some a => simp [hm, hnote, Node.annotate]
        | none =>
          simp only [hm, hnote, Node.annotate, conclude_ok_iff, ne_eq, not_true, if_false]
          constructor
          · rintro ⟨hn, rfl, rfl⟩
            exact ⟨owner, sig, rfl, rfl, trivial, hn, rfl, rfl⟩
          · rintro ⟨_, _, hfound, -, -, hn, rfl, rfl⟩
            cases hfound
            exact ⟨hn, rfl, rfl⟩
    · have hne : tys ≠ sig.params := fun h => hlen (congrArg List.length h)
      simp [hlen, hne]

/-! ## The main statement -/

theorem ExprAccepted.checkExpression_eq {c : Context} {n n' : Node} {ty : Ty}
    (h : ExprAccepted c n n' ty) : checkExpression c n = (.ok ty, n') := by
  cases h with
  | id found => simp [checkExpression, found, conclude_ok_iff]
  | @literal kind _ _ _ _ isLiteral =>
    cases kind <;> simp only [Kind.literalType?, reduceCtorEq, Option.some.injEq] at isLiteral
    all_goals
      subst isLiteral
      simp [checkExpression, conclude_ok_iff]
  | call resolved accepted =>
    simp only [checkExpression, ne_eq, not_true, if_false, accepted]
    exact (concludeCall_ok_iff (checkExpressions_length accepted)).mpr
      ⟨_, _, resolved, rfl, rfl, rfl, rfl, rfl⟩
  | binary target acceptedLeft acceptedRight rule =>
    rw [checkExpression]
    dsimp only
    rw [if_neg fun h => h.2 (target h.1)]
    simp only [acceptedLeft, acceptedRight, rule]
    exact conclude_ok_iff.mpr ⟨rfl, rfl, rfl⟩
  | unary accepted => simp [checkExpression, accepted, conclude_ok_iff]

theorem ExprAccepted.of_checkExpression {c : Context} {n n' : Node} {ty : Ty}
    (h : checkExpression c n = (.ok ty, n')) : ExprAccepted c n n' ty := by
  rcases n with ⟨kind, attr, loc, note, children⟩
  cases kind
  all_goals try simp [checkExpression] at h; done
  case id =>
    cases hfound : c.lookup attr loc with
    | error d => simp [checkExpression, hfound] at h
    | ok found =>
      simp only [checkExpression, hfound] at h
      obtain ⟨rfl, rfl, rfl⟩ := conclude_ok_iff.mp h
      exact .id hfound
  case num | trueLiteral | falseLiteral | string =>
    simp only [checkExpression] at h
    obtain ⟨rfl, rfl, rfl⟩ := conclude_ok_iff.mp h
    exact .literal rfl
  case functionInvocation =>
    rw [checkExpression.eq_def] at h
    simp only at h
    split at h
    · rename_i callee listKind listAttr listLoc listNote args
      split at h
      · simp at h
      · split at h
        · simp at h
        · rename_i hcallee hlist
          split at h
          · simp at h
          · rename_i tys args' hargs
            obtain ⟨owner, sig, hres, rfl, hnote, hn, rfl, rfl⟩ :=
              (concludeCall_ok_iff (checkExpressions_length hargs)).mp h
            rcases callee with ⟨calleeKind, name, nameLoc, nameNote, nameCh⟩
            simp only [ne_eq, Decidable.not_not] at hcallee hlist
            simp only at hnote hn hcallee
            subst hnote hn hcallee hlist
            exact .call hres hargs
    · simp at h
  case binary op =>
    rw [checkExpression.eq_def] at h
    simp only at h
    split at h
    · split at h
      · simp at h
      · rename_i htarget
        split at h
        · simp at h
        · split at h
          · simp at h
          · split at h
            · simp at h
            · simp at h
            · rename_i hl _ _ _ hr _ _ hty
              obtain ⟨hn, rfl, rfl⟩ := conclude_ok_iff.mp h
              simp only at hn
              subst hn
              exact .binary (fun hop => Decidable.not_not.mp fun hk => htarget ⟨hop, hk⟩) hl hr hty
    · simp at h
  case unary op =>
    rw [checkExpression.eq_def] at h
    simp only at h
    split at h
    · split at h
      · simp at h
      · rename_i ty' e' he
        split at h
        · simp at h
        · rename_i hty
          simp only [ne_eq, Decidable.not_not] at hty
          obtain ⟨hn, rfl, rfl⟩ := conclude_ok_iff.mp h
          simp only at hn
          subst hn hty
          exact .unary he
    · simp at h

/-- `ExprAccepted` is the list of all successes of `checkExpression`. -/
theorem checkExpression_ok_iff {c : Context} {n n' : Node} {ty : Ty} :
    checkExpression c n = (.ok ty, n') ↔ ExprAccepted c n n' ty :=
  ⟨.of_checkExpression, fun h => h.checkExpression_eq⟩

end Check

end TreeWat
