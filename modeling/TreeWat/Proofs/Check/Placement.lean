import TreeWat.Check.Program
import TreeWat.Proofs.Placement
set_option autoImplicit false

/-!
# Check: locations are carried along

One equation per function of the checker: what it answers about a tree and a context without
locations is its answer about the tree and the context as they are, with the locations taken
out afterwards.  Messages quote the surface form of a node, which shows no locations either.
-/

namespace TreeWat.Check

/-! ## Types and heads of declarations -/

theorem typeOf_unplaced (n : Node) :
    typeOf n.unplaced = mapEnds ShapeError.unplaced id (typeOf n) := by
  unfold typeOf
  rw [Node.kind_unplaced]
  split <;> simp

theorem valueTypeOf_unplaced (n : Node) :
    valueTypeOf n.unplaced = mapEnds ShapeError.unplaced id (valueTypeOf n) := by
  unfold valueTypeOf
  rw [Node.kind_unplaced]
  split <;> simp

theorem typedName_unplaced (n : Node) :
    typedName n.unplaced
      = mapEnds ShapeError.unplaced (Prod.map id Node.unplaced) (typedName n) := by
  unfold typedName
  rw [Node.expectChildren_unplaced]
  refine mapEnds_bind fun _ => ?_
  rw [Node.child_unplaced]
  refine mapEnds_bind fun tyNode => ?_
  rw [valueTypeOf_unplaced]
  refine mapEnds_bind fun ty => ?_
  rw [Node.child_unplaced]
  refine mapEnds_bind fun name => ?_
  rw [Node.expect_unplaced]
  exact mapEnds_bind fun _ => rfl

theorem parameterTypes_unplaced (ps : List Node) :
    parameterTypes (ps.map Node.unplaced)
      = mapEnds ShapeError.unplaced id (parameterTypes ps) := by
  induction ps with
  | nil => rfl
  | cons p rest ih =>
    rw [List.map_cons, parameterTypes, parameterTypes, Node.expect_unplaced]
    refine mapEnds_bind fun _ => ?_
    rw [Node.expectChildren_unplaced]
    refine mapEnds_bind fun _ => ?_
    rw [Node.child_unplaced]
    refine mapEnds_bind fun tyNode => ?_
    rw [valueTypeOf_unplaced]
    refine mapEnds_bind fun ty => ?_
    rw [ih]
    exact mapEnds_bind fun _ => rfl

theorem functionHead_unplaced (decl : Node) :
    functionHead decl.unplaced
      = mapEnds ShapeError.unplaced (Prod.map Node.unplaced id) (functionHead decl) := by
  unfold functionHead
  rw [Node.expectChildren_unplaced]
  refine mapEnds_bind fun _ => ?_
  rw [Node.child_unplaced]
  refine mapEnds_bind fun resultNode => ?_
  rw [typeOf_unplaced]
  refine mapEnds_bind fun result => ?_
  rw [Node.child_unplaced]
  refine mapEnds_bind fun name => ?_
  rw [Node.expect_unplaced]
  refine mapEnds_bind fun _ => ?_
  rw [Node.child_unplaced]
  refine mapEnds_bind fun params => ?_
  rw [Node.expect_unplaced]
  refine mapEnds_bind fun _ => ?_
  rw [Node.children_unplaced, parameterTypes_unplaced]
  exact mapEnds_bind fun _ => rfl

theorem entryPointHead_unplaced (decl : Node) :
    entryPointHead decl.unplaced
      = mapEnds ShapeError.unplaced Node.unplaced (entryPointHead decl) := by
  unfold entryPointHead
  rw [Node.expectChildren_unplaced]
  refine mapEnds_bind fun _ => ?_
  rw [Node.child_unplaced]
  refine mapEnds_bind fun resultNode => ?_
  rw [Node.expect_unplaced]
  refine mapEnds_bind fun _ => ?_
  rw [Node.child_unplaced]
  refine mapEnds_bind fun name => ?_
  rw [Node.expect_unplaced]
  exact mapEnds_bind fun _ => rfl

/-! ## Expressions -/

@[simp] theorem mismatch_unplaced (operand : Node) (want : Bytes) :
    mismatch operand.unplaced want = (mismatch operand want).unplaced := by
  simp [mismatch, Failure.unplaced, Diagnostic.unplaced, Diagnostic.typeMismatch]

theorem conclude_unplaced (n : Node) (ty : Ty) (scope : Option ScopeId) :
    conclude n.unplaced ty scope
      = Prod.map Outcome.unplaced Node.unplaced (conclude n ty scope) := by
  unfold conclude
  rw [Node.annotate_unplaced]
  cases n.annotate ty.text scope <;> rfl

theorem firstMismatch_unplaced (args : List Node) (tys wants : List Ty) :
    firstMismatch (args.map Node.unplaced) tys wants
      = (firstMismatch args tys wants).map (Prod.map Node.unplaced id) := by
  induction args generalizing tys wants with
  | nil => rfl
  | cons arg rest ih =>
    match tys, wants with
    | [], _ => rfl
    | _ :: _, [] => rfl
    | ty :: tys, want :: wants =>
      rw [List.map_cons, firstMismatch, firstMismatch, ih]
      split <;> rfl

theorem concludeCall_unplaced (c : Context) (n callee argList : Node) (args : List Node)
    (tys : List Ty) :
    concludeCall c.unplaced n.unplaced callee.unplaced argList.unplaced
        (args.map Node.unplaced) tys
      = Prod.map Outcome.unplaced Node.unplaced (concludeCall c n callee argList args tys) := by
  rcases n with ⟨kind, attr, loc, note, children⟩
  have shown := Node.render_unplaced ⟨kind, attr, loc, note, children⟩
  rw [Node.unplaced_mk] at shown
  unfold concludeCall
  rw [Context.scopes_unplaced, Node.attr_unplaced, Node.loc_unplaced,
    Scopes.resolveCall_unplaced _ _ loc]
  cases c.scopes.resolveCall callee.attr loc with
  | error d => simp
  | ok found =>
    obtain ⟨owner, sig⟩ := found
    simp only [mapEnds_ok, id]
    split
    · simp [Diagnostic.argumentCount, Diagnostic.unplaced, shown]
    · rw [firstMismatch_unplaced]
      cases firstMismatch args tys sig.params with
      | some wrong => simp
      | none =>
        simp only [Option.map_none]
        rw [Node.annotate_unplaced]
        cases callee.annotate (Signature.text ⟨tys, sig.result⟩) (some owner) with
        | error e => simp
        | ok callee' => exact conclude_unplaced ⟨kind, attr, loc, note, [callee', argList]⟩ _ _

/-- The check of the expression goes through taking out locations. -/
def ExprUnplaces (c : Context) (n : Node) : Prop :=
  checkExpression c.unplaced n.unplaced
    = Prod.map Outcome.unplaced Node.unplaced (checkExpression c n)

theorem checkExpressions_unplaced {c : Context} {args : List Node}
    (each : ∀ a ∈ args, ExprUnplaces c a) :
    checkExpressions c.unplaced (args.map Node.unplaced)
      = Prod.map Outcome.unplaced (List.map Node.unplaced) (checkExpressions c args) := by
  induction args with
  | nil => rfl
  | cons a rest ih =>
    have hrest := ih fun b hb => each b (List.mem_cons_of_mem _ hb)
    rw [List.map_cons, checkExpressions, checkExpressions, each a List.mem_cons_self]
    rcases checkExpression c a with ⟨e | ty, a'⟩
    · rfl
    · rw [hrest]
      rcases checkExpressions c rest with ⟨e | tys, rest'⟩ <;> rfl

section Expressions

-- opened at a node of known kind
attribute [local simp] checkExpression

variable {c : Context} {attr : Bytes} {loc : Location} {note : Option Annotation}
  {children : List Node}

/-! A node with the wrong number of children is turned down with its kind and these numbers;
these cases come last in each of the following proofs. -/

theorem call_unplaces (each : ∀ list ∈ children, ∀ a ∈ list.children, ExprUnplaces c a) :
    ExprUnplaces c ⟨.functionInvocation, attr, loc, note, children⟩ := by
  unfold ExprUnplaces
  rw [Node.unplaced_mk]
  match children with
  | [callee, ⟨listKind, listAttr, listLoc, listNote, args⟩] =>
    have hargs : checkExpressions c.unplaced (args.map Node.unplaced)
        = Prod.map Outcome.unplaced (List.map Node.unplaced) (checkExpressions c args) :=
      checkExpressions_unplaced (each _ (List.mem_cons_of_mem _ List.mem_cons_self))
    simp only [List.map_cons, List.map_nil, Node.unplaced_mk]
    rw [checkExpression, checkExpression, hargs]
    simp only [Node.kind_unplaced]
    split
    · simp
    · split
      · simp [Node.malformed, ShapeError.unplaced]
      · rcases checkExpressions c args with ⟨e | tys, args'⟩
        · simp
        · simp only [Prod.map_apply, Outcome.unplaced_ok]
          simpa only [Node.unplaced_mk, List.map_cons, List.map_nil] using
            concludeCall_unplaced c
              ⟨.functionInvocation, attr, loc, note,
                [callee, ⟨listKind, listAttr, listLoc, listNote, args⟩]⟩
              callee ⟨listKind, listAttr, listLoc, listNote, args'⟩ args tys
  | [] => simp [Node.malformed, ShapeError.unplaced]
  | [_] => simp [Node.malformed, ShapeError.unplaced]
  | _ :: _ :: _ :: _ =>
    rw [checkExpression.eq_def, checkExpression.eq_def]
    simp [Node.malformed, ShapeError.unplaced]

theorem binary_unplaces {op : BinaryOp} (each : ∀ m ∈ children, ExprUnplaces c m) :
    ExprUnplaces c ⟨.binary op, attr, loc, note, children⟩ := by
  unfold ExprUnplaces
  rw [Node.unplaced_mk]
  match children with
  | [l, r] =>
    rw [List.map_cons, List.map_cons, List.map_nil, checkExpression, checkExpression,
      each l (by simp), each r (by simp), Node.kind_unplaced]
    split
    · simp
    · rcases checkExpression c l with ⟨e | left, l'⟩
      · simp
      · simp only [Prod.map_apply, Outcome.unplaced_ok]
        rcases checkExpression c r with ⟨e | right, r'⟩
        · simp
        · simp only [Prod.map_apply, Outcome.unplaced_ok]
          split
          · simp
          · simp
          · exact conclude_unplaced ⟨.binary op, attr, loc, note, [l', r']⟩ _ _
  | [] => simp [Node.malformed, ShapeError.unplaced]
  | [_] => simp [Node.malformed, ShapeError.unplaced]
  | _ :: _ :: _ :: _ =>
    rw [checkExpression.eq_def, checkExpression.eq_def]
    simp [Node.malformed, ShapeError.unplaced]

theorem unary_unplaces {op : UnaryOp} (each : ∀ m ∈ children, ExprUnplaces c m) :
    ExprUnplaces c ⟨.unary op, attr, loc, note, children⟩ := by
  unfold ExprUnplaces
  rw [Node.unplaced_mk]
  match children with
  | [e] =>
    rw [List.map_cons, List.map_nil, checkExpression, checkExpression, each e (by simp)]
    rcases checkExpression c e with ⟨err | ty, e'⟩
    · simp
    · simp only [Prod.map_apply, Outcome.unplaced_ok]
      split
      · simp
      · exact conclude_unplaced ⟨.unary op, attr, loc, note, [e']⟩ _ _
  | [] => simp [Node.malformed, ShapeError.unplaced]
  | _ :: _ :: _ =>
    rw [checkExpression.eq_def, checkExpression.eq_def]
    simp [Node.malformed, ShapeError.unplaced]

theorem checkExpression_unplaced (c : Context) (n : Node) : ExprUnplaces c n := by
  induction n using Node.induction with
  | step n ih =>
    rcases n with ⟨kind, attr, loc, note, children⟩
    have child : ∀ m ∈ children, ExprUnplaces c m :=
      fun m hm => ih m (Node.mem_descendants_of_child hm)
    have concluded := conclude_unplaced ⟨kind, attr, loc, note, children⟩
    cases kind with
    | functionInvocation =>
      exact call_unplaces fun list hlist a ha => ih a (Node.mem_descendants_of_grandchild hlist ha)
    | binary op => exact binary_unplaces child
    | unary op => exact unary_unplaces child
    | id =>
      unfold ExprUnplaces
      rw [Node.unplaced_mk] at *
      rw [checkExpression, checkExpression, Context.lookup_unplaced c attr loc]
      cases c.lookup attr loc with
      | error d => simp
      | ok found => exact concluded _ _
    | num | trueLiteral | falseLiteral | string =>
      unfold ExprUnplaces
      rw [Node.unplaced_mk] at *
      rw [checkExpression, checkExpression]
      exact concluded _ _
    | _ =>
      unfold ExprUnplaces
      rw [Node.unplaced_mk]
      simp [Node.malformed, ShapeError.unplaced]

end Expressions

/-! ## Statements -/

theorem checkCondition_unplaced (c : Context) (cond : Node) :
    checkCondition c.unplaced cond.unplaced
      = Prod.map Outcome.unplaced Node.unplaced (checkCondition c cond) := by
  unfold checkCondition
  rw [checkExpression_unplaced]
  rcases checkExpression c cond with ⟨e | ty, cond'⟩
  · rfl
  · simp only [Prod.map_apply, Outcome.unplaced_ok]
    split <;> simp

theorem checkReturn_unplaced (c : Context) (n : Node) :
    checkReturn c.unplaced n.unplaced
      = Prod.map Outcome.unplaced Node.unplaced (checkReturn c n) := by
  rcases n with ⟨kind, attr, loc, note, children⟩
  rw [Node.unplaced_mk]
  unfold checkReturn
  rw [Context.nearest?_unplaced]
  cases c.nearest? .function with
  | none => simp [Node.malformed, ShapeError.unplaced]
  | some fn =>
    simp only [Context.scopes_unplaced, Scopes.get_unplaced, Scope.result_unplaced]
    split
    · cases children with
      | nil => simp
      | cons _ _ => simp [Diagnostic.noArguments, Diagnostic.unplaced]
    · rcases children with _ | ⟨value, _ | _⟩
      · simp [Diagnostic.missingValue, Diagnostic.unplaced]
      · simp only [List.map_cons, List.map_nil]
        rw [checkExpression_unplaced]
        rcases checkExpression c value with ⟨e | got, value'⟩
        · simp
        · simp only [Prod.map_apply, Outcome.unplaced_ok]
          split
          · simp [Diagnostic.typeMismatch, Diagnostic.unplaced]
          · simp
      · simp [Node.malformed, ShapeError.unplaced]

theorem checkBreak_unplaced (c : Context) (n : Node) :
    checkBreak c.unplaced n.unplaced
      = Prod.map Outcome.unplaced Node.unplaced (checkBreak c n) := by
  unfold checkBreak
  rw [Context.nearest?_unplaced]
  cases c.nearest? .loop with
  | none => simp [Diagnostic.breakNotInLoop, Diagnostic.unplaced]
  | some loop =>
    simp only [Node.children_unplaced, List.isEmpty_map, Node.loc_unplaced,
      Node.annotate_unplaced]
    split
    · simp [Diagnostic.noArguments, Diagnostic.unplaced]
    · cases n.annotate [] (some loop) <;> simp

theorem checkVariable_unplaced (c : Context) (n : Node) :
    checkVariable c.unplaced n.unplaced
      = Prod.map Outcome.unplaced (Prod.map Node.unplaced Context.unplaced)
        (checkVariable c n) := by
  rcases n with ⟨kind, attr, loc, note, children⟩
  unfold checkVariable
  rw [typedName_unplaced]
  cases typedName ⟨kind, attr, loc, note, children⟩ with
  | error e => simp
  | ok found =>
    obtain ⟨ty, id⟩ := found
    have htop : c.unplaced.top? = c.top? := rfl
    simp only [mapEnds_ok, Prod.map_apply, htop, id_eq]
    cases c.top? with
    | none => simp
    | some top =>
      simp only [Context.scopes_unplaced, Scopes.get_unplaced, Scope.variant_unplaced,
        Node.attr_unplaced, Node.loc_unplaced, Context.declare_unplaced c top id.attr ty id.loc]
      split
      · simp [Diagnostic.innerDeclaration, Diagnostic.unplaced]
      · cases c.declare top id.attr ty id.loc with
        | error d => simp
        | ok c' =>
          simp only [mapEnds_ok, Node.annotate_unplaced]
          cases id.annotate ty.text (some top) with
          | error e => simp
          | ok id' => simp [List.map_set]

/-- The check of the statement goes through taking out locations. -/
def StmtUnplaces (n : Node) : Prop :=
  ∀ (own : Option ScopeId) (c : Context), checkStatementIn own c.unplaced n.unplaced
    = Prod.map Outcome.unplaced (Prod.map Node.unplaced Context.unplaced)
      (checkStatementIn own c n)

theorem checkStatements_unplaced {ss : List Node} (each : ∀ n ∈ ss, StmtUnplaces n) (c : Context) :
    checkStatements c.unplaced (ss.map Node.unplaced)
      = Prod.map Outcome.unplaced (Prod.map (List.map Node.unplaced) Context.unplaced)
        (checkStatements c ss) := by
  induction ss generalizing c with
  | nil => rfl
  | cons n rest ih =>
    rw [List.map_cons, checkStatements, checkStatements, each n List.mem_cons_self]
    rcases checkStatementIn none c n with ⟨e | _, n', c'⟩
    · rfl
    · simp only [Prod.map_apply, Outcome.unplaced_ok]
      rw [ih (fun m hm => each m (List.mem_cons_of_mem _ hm))]
      rcases checkStatements c' rest with ⟨o, rest', c''⟩
      rfl

/-- Where a scope begins is no matter. -/
theorem enter_empty_unplaced (c : Context) (v : Variant) (start : Location) :
    c.unplaced.enter (fun tag => .empty v tag .nowhere)
      = ((c.enter fun tag => .empty v tag start).1.unplaced,
        (c.enter fun tag => .empty v tag start).2) :=
  c.enter_unplaced fun _ => rfl

section Statements

-- opened at a node of known kind
attribute [local simp] checkStatementIn

variable {attr : Bytes} {loc : Location} {note : Option Annotation} {children : List Node}

theorem block_unplaces (each : ∀ m ∈ children, StmtUnplaces m) :
    StmtUnplaces ⟨.block, attr, loc, note, children⟩ := by
  intro own c
  have annotated := Node.annotate_unplaced ⟨.block, attr, loc, note, children⟩
  rw [Node.unplaced_mk] at *
  rw [checkStatementIn.eq_def, checkStatementIn.eq_def]
  -- The block's own scope or a new one: the rest is the same.
  cases own
  all_goals
    simp only [enter_empty_unplaced c .block loc, annotated]
    rcases Node.annotate _ [] (some _) with e | n'
    · simp
    · simp only [mapEnds_ok, checkStatements_unplaced each]
      rcases checkStatements _ children with ⟨o, children', c'⟩
      rcases n' with ⟨kind', attr', loc', note', children''⟩
      simp

theorem statementExpression_unplaces :
    StmtUnplaces ⟨.statementExpression, attr, loc, note, children⟩ := by
  intro own c
  rw [Node.unplaced_mk]
  match children with
  | [e] =>
    rw [List.map_cons, List.map_nil, checkStatementIn, checkStatementIn,
      checkExpression_unplaced c e]
    rcases checkExpression c e with ⟨err | ty, e'⟩ <;> simp
  | [] => simp [Node.malformed, ShapeError.unplaced]
  | _ :: _ :: _ =>
    rw [checkStatementIn.eq_def, checkStatementIn.eq_def]
    simp [Node.malformed, ShapeError.unplaced]

theorem ifThen_unplaces (each : ∀ m ∈ children, StmtUnplaces m) :
    StmtUnplaces ⟨.ifThen, attr, loc, note, children⟩ := by
  intro own c
  rw [Node.unplaced_mk]
  match children with
  | [cond, arm] =>
    rw [List.map_cons, List.map_cons, List.map_nil, checkStatementIn, checkStatementIn,
      checkCondition_unplaced, Node.loc_unplaced, enter_empty_unplaced c .block arm.loc]
    rcases checkCondition c cond with ⟨e | _, cond'⟩
    · simp
    · simp only [Prod.map_apply, Outcome.unplaced_ok]
      rw [each arm (by simp)]
      rcases checkStatementIn _ _ arm with ⟨o, arm', c'⟩
      simp
  | [] => simp [Node.malformed, ShapeError.unplaced]
  | [_] => simp [Node.malformed, ShapeError.unplaced]
  | _ :: _ :: _ :: _ =>
    rw [checkStatementIn.eq_def, checkStatementIn.eq_def]
    simp [Node.malformed, ShapeError.unplaced]

theorem ifElse_unplaces (each : ∀ m ∈ children, StmtUnplaces m) :
    StmtUnplaces ⟨.ifElse, attr, loc, note, children⟩ := by
  intro own c
  rw [Node.unplaced_mk]
  match children with
  | [cond, arm₁, arm₂] =>
    rw [List.map_cons, List.map_cons, List.map_cons, List.map_nil, checkStatementIn,
      checkStatementIn, checkCondition_unplaced, Node.loc_unplaced, Node.loc_unplaced,
      enter_empty_unplaced c .block arm₁.loc]
    rcases checkCondition c cond with ⟨e | _, cond'⟩
    · simp
    · simp only [Prod.map_apply, Outcome.unplaced_ok]
      rw [each arm₁ (by simp)]
      rcases checkStatementIn _ _ arm₁ with ⟨e | _, arm₁', c₁⟩
      · simp
      · simp only [Prod.map_apply, Outcome.unplaced_ok, Context.leave_unplaced]
        rw [enter_empty_unplaced c₁.leave .block arm₂.loc, each arm₂ (by simp)]
        rcases checkStatementIn _ _ arm₂ with ⟨o, arm₂', c₂⟩
        simp
  | [] => simp [Node.malformed, ShapeError.unplaced]
  | [_] => simp [Node.malformed, ShapeError.unplaced]
  | [_, _] => simp [Node.malformed, ShapeError.unplaced]
  | _ :: _ :: _ :: _ :: _ =>
    rw [checkStatementIn.eq_def, checkStatementIn.eq_def]
    simp [Node.malformed, ShapeError.unplaced]

theorem while_unplaces (each : ∀ m ∈ children, StmtUnplaces m) :
    StmtUnplaces ⟨.while, attr, loc, note, children⟩ := by
  intro own c
  rw [Node.unplaced_mk]
  match children with
  | [cond, body] =>
    rw [List.map_cons, List.map_cons, List.map_nil, checkStatementIn, checkStatementIn,
      checkCondition_unplaced, Node.loc_unplaced, enter_empty_unplaced c .loop body.loc]
    rcases checkCondition c cond with ⟨e | _, cond'⟩
    · simp
    · simp only [Prod.map_apply, Outcome.unplaced_ok]
      rw [each body (by simp)]
      rcases checkStatementIn _ _ body with ⟨o, body', c'⟩
      simp
  | [] => simp [Node.malformed, ShapeError.unplaced]
  | [_] => simp [Node.malformed, ShapeError.unplaced]
  | _ :: _ :: _ :: _ =>
    rw [checkStatementIn.eq_def, checkStatementIn.eq_def]
    simp [Node.malformed, ShapeError.unplaced]

theorem checkStatementIn_unplaced (n : Node) : StmtUnplaces n := by
  induction n using Node.induction with
  | step n ih =>
    rcases n with ⟨kind, attr, loc, note, children⟩
    have child : ∀ m ∈ children, StmtUnplaces m :=
      fun m hm => ih m (Node.mem_descendants_of_child hm)
    cases kind with
    | block => exact block_unplaces child
    | statementExpression => exact statementExpression_unplaces
    | ifThen => exact ifThen_unplaces child
    | ifElse => exact ifElse_unplaces child
    | «while» => exact while_unplaces child
    | variableDeclaration =>
      intro own c
      have declared := checkVariable_unplaced c ⟨.variableDeclaration, attr, loc, note, children⟩
      rw [Node.unplaced_mk] at *
      rw [checkStatementIn, checkStatementIn, declared]
    | functionInvocation =>
      intro own c
      have called : ExprUnplaces c ⟨.functionInvocation, attr, loc, note, children⟩ :=
        checkExpression_unplaced c _
      unfold ExprUnplaces at called
      rw [Node.unplaced_mk] at *
      rw [checkStatementIn, checkStatementIn, called]
      rcases checkExpression c _ with ⟨e | ty, n'⟩ <;> rfl
    | «return» =>
      intro own c
      have returned := checkReturn_unplaced c ⟨.return, attr, loc, note, children⟩
      rw [Node.unplaced_mk] at *
      rw [checkStatementIn, checkStatementIn, returned]
      rcases checkReturn c ⟨.return, attr, loc, note, children⟩ with ⟨o, n'⟩
      rfl
    | «break» =>
      intro own c
      have broken := checkBreak_unplaced c ⟨.break, attr, loc, note, children⟩
      rw [Node.unplaced_mk] at *
      rw [checkStatementIn, checkStatementIn, broken]
      rcases checkBreak c ⟨.break, attr, loc, note, children⟩ with ⟨o, n'⟩
      rfl
    | _ =>
      intro own c
      rw [Node.unplaced_mk]
      simp [Node.malformed, ShapeError.unplaced]

end Statements

/-! ## Functions -/

theorem checkParameter_unplaced (fn : ScopeId) (c : Context) (p : Node) :
    checkParameter fn c.unplaced p.unplaced
      = Prod.map Outcome.unplaced (Prod.map Node.unplaced Context.unplaced)
        (checkParameter fn c p) := by
  rcases p with ⟨kind, attr, loc, note, children⟩
  unfold checkParameter
  rw [Node.expect_unplaced]
  rcases Node.expect ⟨kind, attr, loc, note, children⟩ [.formalParameter] with e | _
  · simp
  · simp only [mapEnds_ok]
    rw [typedName_unplaced]
    rcases typedName ⟨kind, attr, loc, note, children⟩ with e | ⟨ty, id⟩
    · simp
    · simp only [mapEnds_ok, Prod.map_apply, id_eq, Node.attr_unplaced, Node.loc_unplaced]
      rw [Context.declare_unplaced c fn id.attr ty id.loc]
      cases c.declare fn id.attr ty id.loc with
      | error d => simp
      | ok c' =>
        simp only [mapEnds_ok]
        rw [Node.annotate_unplaced]
        cases id.annotate ty.text (some fn) with
        | error e => simp
        | ok id' => simp [List.map_set]

theorem checkParameters_unplaced (fn : ScopeId) (c : Context) (ps : List Node) :
    checkParameters fn c.unplaced (ps.map Node.unplaced)
      = Prod.map Outcome.unplaced (Prod.map (List.map Node.unplaced) Context.unplaced)
        (checkParameters fn c ps) := by
  induction ps generalizing c with
  | nil => rfl
  | cons p rest ih =>
    rw [List.map_cons, checkParameters, checkParameters, checkParameter_unplaced]
    rcases checkParameter fn c p with ⟨e | _, p', c'⟩
    · rfl
    · simp only [Prod.map_apply, Outcome.unplaced_ok]
      rw [ih]
      rcases checkParameters fn c' rest with ⟨o, rest', c''⟩
      rfl

theorem checkFunctionBody_unplaced (fn : ScopeId) (c : Context) (body : Node) :
    checkFunctionBody fn c.unplaced body.unplaced
      = Prod.map Outcome.unplaced (Prod.map Node.unplaced Context.unplaced)
        (checkFunctionBody fn c body) := by
  unfold checkFunctionBody
  rw [Node.annotate_unplaced, Node.children_unplaced,
    checkStatements_unplaced fun m _ => checkStatementIn_unplaced m]
  cases body.annotate [] (some fn) with
  | error e => rfl
  | ok body' =>
    rcases checkStatements c body.children with ⟨o, stmts', c'⟩
    rcases body' with ⟨kind, attr, loc, note, children⟩
    simp

theorem checkFunction_unplaced (c : Context) (fn : Node) :
    checkFunction c.unplaced fn.unplaced
      = Prod.map Outcome.unplaced (Prod.map Node.unplaced Context.unplaced)
        (checkFunction c fn) := by
  rcases fn with ⟨kind, attr, loc, note, children⟩
  rw [Node.unplaced_mk]
  unfold checkFunction
  match children with
  | [resultNode, name, ⟨paramsKind, paramsAttr, paramsLoc, paramsNote, ps⟩, body] =>
    have entered : ∀ result : Ty, c.unplaced.enter (fun tag => .function tag .nowhere result)
        = ((c.enter fun tag => .function tag loc result).1.unplaced,
          (c.enter fun tag => .function tag loc result).2) :=
      fun result => c.enter_unplaced fun _ => rfl
    simp only [List.map_cons, List.map_nil, Node.kind_unplaced, typeOf_unplaced]
    split
    · simp
    · cases typeOf resultNode with
      | error e => simp
      | ok result =>
        simp only [mapEnds_ok, id_eq, entered]
        split
        · simp [Node.malformed, ShapeError.unplaced]
        · simp only [Node.children_unplaced]
          rw [checkParameters_unplaced]
          rcases checkParameters _ _ ps with ⟨e | _, ps', c'⟩
          · simp
          · simp only [Prod.map_apply, Outcome.unplaced_ok]
            rw [checkFunctionBody_unplaced]
            rcases checkFunctionBody _ c' body with ⟨o, body', c''⟩
            simp
  | [] => simp [Node.malformed, ShapeError.unplaced]
  | [_] => simp [Node.malformed, ShapeError.unplaced]
  | [_, _] => simp [Node.malformed, ShapeError.unplaced]
  | [_, _, _] => simp [Node.malformed, ShapeError.unplaced]
  | _ :: _ :: _ :: _ :: _ :: _ => simp [Node.malformed, ShapeError.unplaced]

/-! ## Global declarations -/

theorem noteName_unplaced (c : Context) (decl id : Node) (sig : Bytes) :
    noteName c.unplaced decl.unplaced id.unplaced sig
      = Prod.map Outcome.unplaced (Prod.map Node.unplaced Context.unplaced)
        (noteName c decl id sig) := by
  rcases decl with ⟨kind, attr, loc, note, children⟩
  unfold noteName
  rw [Node.annotate_unplaced]
  cases id.annotate sig (some .globals) with
  | error e => rfl
  | ok id' => simp [List.map_set]

theorem collectDeclaration_unplaced (c : Context) (decl : Node) :
    collectDeclaration c.unplaced decl.unplaced
      = Prod.map Outcome.unplaced (Prod.map Node.unplaced Context.unplaced)
        (collectDeclaration c decl) := by
  unfold collectDeclaration
  rw [Node.kind_unplaced]
  split
  · rw [entryPointHead_unplaced]
    cases entryPointHead decl with
    | error e => rfl
    | ok id =>
      simp only [mapEnds_ok, Node.attr_unplaced, Node.loc_unplaced]
      rw [Context.setEntryPoint_unplaced c .globals id.attr decl.loc]
      cases c.setEntryPoint .globals id.attr decl.loc with
      | error d => rfl
      | ok c' => exact noteName_unplaced c' decl id _
  · rw [functionHead_unplaced]
    rcases functionHead decl with e | ⟨id, sig⟩
    · rfl
    · simp only [mapEnds_ok, Prod.map_apply, id_eq, Node.attr_unplaced, Node.loc_unplaced]
      rw [Context.declareFunc_unplaced c .globals id.attr sig id.loc]
      cases c.declareFunc .globals id.attr sig id.loc with
      | error f => rfl
      | ok c' => exact noteName_unplaced c' decl id _
  · rw [typedName_unplaced]
    rcases typedName decl with e | ⟨ty, id⟩
    · rfl
    · simp only [mapEnds_ok, Prod.map_apply, id_eq, Node.attr_unplaced, Node.loc_unplaced]
      rw [Context.declare_unplaced c .globals id.attr ty id.loc]
      cases c.declare .globals id.attr ty id.loc with
      | error d => rfl
      | ok c' => exact noteName_unplaced c' decl id _
  · simp

theorem collectDeclarations_unplaced (c : Context) (ds : List Node) :
    collectDeclarations c.unplaced (ds.map Node.unplaced)
      = Prod.map Outcome.unplaced (Prod.map (List.map Node.unplaced) Context.unplaced)
        (collectDeclarations c ds) := by
  induction ds generalizing c with
  | nil => rfl
  | cons d rest ih =>
    rw [List.map_cons, collectDeclarations, collectDeclarations, collectDeclaration_unplaced]
    rcases collectDeclaration c d with ⟨e | _, d', c'⟩
    · rfl
    · simp only [Prod.map_apply, Outcome.unplaced_ok]
      rw [ih]
      rcases collectDeclarations c' rest with ⟨o, rest', c''⟩
      rfl

theorem collectGlobals_unplaced (c : Context) (root : Node) :
    collectGlobals c.unplaced root.unplaced
      = Prod.map Outcome.unplaced (Prod.map Node.unplaced Context.unplaced)
        (collectGlobals c root) := by
  rcases root with ⟨kind, attr, loc, note, children⟩
  unfold collectGlobals
  rw [Node.expect_unplaced]
  rcases Node.expect ⟨kind, attr, loc, note, children⟩ [.globalDeclarations] with e | _
  · rfl
  · simp only [mapEnds_ok, Node.children_unplaced]
    rw [collectDeclarations_unplaced]
    rcases collectDeclarations c children with ⟨e | _, decls, c'⟩
    · simp
    · simp only [Prod.map_apply, Outcome.unplaced_ok]
      have hsame : c'.unplaced.scopes.globals.entryPoint = c'.scopes.globals.entryPoint := rfl
      by_cases hnone : c'.scopes.globals.entryPoint.isEmpty = true
      · rw [if_pos hnone, if_pos (by rwa [hsame])]
        simp [Diagnostic.noMain, Diagnostic.unplaced]
      · rw [if_neg hnone, if_neg (by rwa [hsame])]
        simp

/-! ## Exits -/

@[simp] theorem halts_unplaced (scopes : Scopes) (name : Bytes) :
    halts scopes.unplaced name = halts scopes name := rfl

theorem exitOfAll_unplaced {scopes : Scopes} {ss : List Node}
    (each : ∀ n ∈ ss, exitOf scopes.unplaced n.unplaced
      = mapEnds ShapeError.unplaced id (exitOf scopes n)) :
    exitOfAll scopes.unplaced (ss.map Node.unplaced)
      = mapEnds ShapeError.unplaced id (exitOfAll scopes ss) := by
  induction ss with
  | nil => rfl
  | cons n rest ih =>
    have hrest := ih fun m hm => each m (List.mem_cons_of_mem _ hm)
    rw [List.map_cons, exitOfAll, exitOfAll, each n List.mem_cons_self]
    cases exitOf scopes n with
    | error e => rfl
    | ok exit =>
      cases exit with
      | doesNotAlwaysReturn => exact hrest
      | _ => rfl

theorem exitOf_unplaced (scopes : Scopes) (n : Node) :
    exitOf scopes.unplaced n.unplaced = mapEnds ShapeError.unplaced id (exitOf scopes n) := by
  induction n using Node.induction with
  | step n ih =>
    rcases n with ⟨kind, attr, loc, note, children⟩
    have child : ∀ {m : Node}, m ∈ children → exitOf scopes.unplaced m.unplaced
        = mapEnds ShapeError.unplaced id (exitOf scopes m) :=
      fun hm => ih _ (Node.mem_descendants_of_child hm)
    rw [Node.unplaced_mk]
    cases kind with
    | block =>
      rw [exitOf, exitOf]
      exact exitOfAll_unplaced fun m hm => child hm
    | ifElse =>
      rcases children with _ | ⟨cond, _ | ⟨arm₁, _ | ⟨arm₂, rest⟩⟩⟩
      · simp [exitOf, Node.malformed, ShapeError.unplaced]
      · simp [exitOf, Node.malformed, ShapeError.unplaced]
      · rw [List.map_cons, List.map_cons, List.map_nil, exitOf, exitOf,
          child (m := arm₁) (by simp)]
        cases exitOf scopes arm₁ <;> rfl
      · rw [List.map_cons, List.map_cons, List.map_cons, exitOf, exitOf,
          child (m := arm₁) (by simp), child (m := arm₂) (by simp)]
        cases exitOf scopes arm₁ with
        | error e => rfl
        | ok e₁ =>
          cases exitOf scopes arm₂ with
          | error e => rfl
          | ok e₂ =>
            simp only [mapEnds_ok, id_eq]
            split <;> rfl
    | functionInvocation =>
      cases children with
      | nil => simp [exitOf, Node.malformed, ShapeError.unplaced]
      | cons callee rest =>
        rw [List.map_cons, exitOf, exitOf, halts_unplaced, Node.attr_unplaced]
        split <;> rfl
    | _ => simp [exitOf]

theorem checkReturns_unplaced (scopes : Scopes) (decl : Node) :
    checkReturns scopes.unplaced decl.unplaced = (checkReturns scopes decl).unplaced := by
  have classified : decl.unplaced.child 3 >>= exitOf scopes.unplaced
      = mapEnds ShapeError.unplaced id (decl.child 3 >>= exitOf scopes) := by
    rw [Node.child_unplaced]
    exact mapEnds_bind fun body => exitOf_unplaced scopes body
  have typed : decl.unplaced.child 0 >>= typeOf
      = mapEnds ShapeError.unplaced id (decl.child 0 >>= typeOf) := by
    rw [Node.child_unplaced]
    exact mapEnds_bind fun n => typeOf_unplaced n
  unfold checkReturns
  rw [Node.kind_unplaced]
  split
  · rw [typed, Outcome.ofShape_mapEnds]
    refine mapEnds_bind fun result => ?_
    dsimp only [id_eq]
    split
    · rfl
    · rw [classified, Outcome.ofShape_mapEnds]
      refine mapEnds_bind fun exit => ?_
      dsimp only [id_eq]
      split
      · rfl
      · rw [Node.child_unplaced, Outcome.ofShape_mapEnds]
        refine mapEnds_bind fun name => ?_
        simp [Diagnostic.doesNotReturn, Diagnostic.unplaced]
  · rfl

theorem checkAllReturns_unplaced (scopes : Scopes) (root : Node) :
    checkAllReturns scopes.unplaced root.unplaced = (checkAllReturns scopes root).unplaced := by
  rcases root with ⟨kind, attr, loc, note, children⟩
  unfold checkAllReturns
  rw [Node.unplaced_mk]
  dsimp only
  induction children with
  | nil => rfl
  | cons d rest ih =>
    rw [List.map_cons, List.forM, List.forM, checkReturns_unplaced]
    exact mapEnds_bind fun _ => ih

/-! ## Programs -/

theorem checkBodiesOf_unplaced (c : Context) (ds : List Node) :
    checkBodiesOf c.unplaced (ds.map Node.unplaced)
      = Prod.map Outcome.unplaced (Prod.map (List.map Node.unplaced) Context.unplaced)
        (checkBodiesOf c ds) := by
  induction ds generalizing c with
  | nil => rfl
  | cons d rest ih =>
    rw [List.map_cons, checkBodiesOf, checkBodiesOf, Node.kind_unplaced]
    split
    · rw [checkFunction_unplaced]
      rcases checkFunction c d with ⟨e | _, d', c'⟩
      · rfl
      · simp only [Prod.map_apply, Outcome.unplaced_ok]
        rw [ih]
        rcases checkBodiesOf c' rest with ⟨o, rest', c''⟩
        rfl
    · rw [ih]
      rcases checkBodiesOf c rest with ⟨o, rest', c''⟩
      rfl

theorem checkBodies_unplaced (c : Context) (root : Node) :
    checkBodies c.unplaced root.unplaced
      = Prod.map Outcome.unplaced (Prod.map Node.unplaced Context.unplaced)
        (checkBodies c root) := by
  rcases root with ⟨kind, attr, loc, note, children⟩
  unfold checkBodies
  rw [Node.children_unplaced, checkBodiesOf_unplaced]
  rcases checkBodiesOf c children with ⟨o, decls, c'⟩
  simp

theorem checkProgramIn_unplaced (c : Context) (root : Node) :
    checkProgramIn c.unplaced root.unplaced
      = Prod.map Outcome.unplaced (Prod.map Node.unplaced Context.unplaced)
        (checkProgramIn c root) := by
  unfold checkProgramIn
  rw [collectGlobals_unplaced]
  rcases collectGlobals c root with ⟨e | _, root', c'⟩
  · rfl
  · simp only [Prod.map_apply, Outcome.unplaced_ok]
    rw [checkBodies_unplaced]
    rcases checkBodies c' root' with ⟨e | _, root'', c''⟩
    · rfl
    · simp only [Prod.map_apply, Outcome.unplaced_ok, Context.scopes_unplaced]
      rw [checkAllReturns_unplaced]

/-- The checked program without locations. -/
def CheckedProgram.unplaced (p : CheckedProgram) : CheckedProgram :=
  ⟨p.tree.unplaced, p.scopes.unplaced⟩

/-- The checker's answer about a tree without locations is its answer about the tree, with
the locations taken out. -/
theorem checkProgram_unplaced (root : Node) :
    checkProgram root.unplaced
      = mapEnds Failure.unplaced CheckedProgram.unplaced (checkProgram root) := by
  unfold checkProgram
  have hrun := checkProgramIn_unplaced .initial root
  have hinitial : Context.initial.unplaced = .initial := rfl
  rw [hinitial] at hrun
  rw [hrun]
  rcases checkProgramIn .initial root with ⟨e | _, tree, c⟩ <;> rfl

end TreeWat.Check
