import TreeWat.Proofs.Check.Function
import TreeWat.Proofs.Lower.Code
set_option autoImplicit false

/-!
# Lower: an accepted tree has code

Lowering checks nothing again: it follows the notes on names, takes the first
argument of a call that prints, and reads the stack of loops.  Here the notes that
the checker leaves are matched with what lowering reads, so that every accepted
expression, statement and function has code, the code that `Code` describes.
-/

namespace TreeWat.Lower

open Wat (Code Op Arith Instr)
open Check (Context Inside FunctionScope Frame ExprAccepted checkExpression checkExpressions
  checkStatementIn checkStatements checkParameters calleeOwner)

/-! ## Running lowering steps -/

theorem step_bind {α β : Type} {x : Step α} {g : α → Step β} {s s' : State} {a : α}
    (h : x s = .ok (a, s')) : (x >>= g) s = g a s' := by
  show Except.bind (x s) _ = _
  rw [h]
  rfl

theorem step_pure {α : Type} (a : α) (s : State) : (pure a : Step α) s = .ok (a, s) := rfl

theorem intern_ok (raw : Bytes) (s : State) :
    intern raw s = .ok ((s.literals.size, Wat.literalLength raw),
      { s with literals := s.literals.intern raw }) := rfl

theorem freshLabel_ok (s : State) :
    freshLabel s = .ok (s.labels, { s with labels := s.labels + 1 }) := rfl

/-! ## Names and their scopes -/

/-- What lowering reads of the scopes of a checked program, inside a function. -/
structure Agrees (env : Env) (f : FunctionScope) (funcs : List (Bytes × Signature)) : Prop where
  builtins : env.scopes.builtins = .builtins
  globalVariant : env.scopes.globals.variant = .global
  globalTag : env.scopes.globals.tag = utf8 "G"
  globalFuncs : env.scopes.globals.funcs = funcs
  functionVariant : (env.scopes.get (.opened f.number)).variant = .function
  functionTag : (env.scopes.get (.opened f.number)).tag = f.tag

variable {env : Env} {f : FunctionScope} {c c' : Context} {inner : List Nat} {inLoop : Bool}
  {Γ : Names}

theorem load_noted (h : Agrees env f Γ.funcs) {attr : Bytes} {loc : Location} {sig : Bytes}
    {ch : List Node} (s : State) :
    load env ⟨.id, attr, loc, some ⟨sig, some (f.ownerOf Γ attr)⟩, ch⟩ s =
      .ok (loadOp f.tag Γ attr, s) := by
  unfold load ownerOf FunctionScope.ownerOf loadOp
  by_cases hl : (Γ.locals.lookup attr).isSome
  · simp [Node.scope?, hl, Scope.isGlobalStorage, h.functionVariant, h.functionTag,
      Scope.storageName, localName, step_pure, bind, StateT.bind, Except.bind]
  · simp [Node.scope?, hl, Scope.isGlobalStorage, Scopes.get, h.globalVariant, h.globalTag,
      Scope.storageName, globalName, step_pure, bind, StateT.bind, Except.bind]

theorem store_noted (h : Agrees env f Γ.funcs) {attr : Bytes} {loc : Location} {sig : Bytes}
    {ch : List Node} (s : State) :
    store env ⟨.id, attr, loc, some ⟨sig, some (f.ownerOf Γ attr)⟩, ch⟩ s =
      .ok (storeOp f.tag Γ attr, s) := by
  unfold store ownerOf FunctionScope.ownerOf storeOp
  by_cases hl : (Γ.locals.lookup attr).isSome
  · simp [Node.scope?, hl, Scope.isGlobalStorage, h.functionVariant, h.functionTag,
      Scope.storageName, localName, step_pure, bind, StateT.bind, Except.bind]
  · simp [Node.scope?, hl, Scope.isGlobalStorage, Scopes.get, h.globalVariant, h.globalTag,
      Scope.storageName, globalName, step_pure, bind, StateT.bind, Except.bind]

theorem calleeParams_owner (h : Agrees env f Γ.funcs) {name : Bytes} {sig : Signature}
    (resolved : Γ.func? name = some sig) :
    calleeParams (env.scopes.get (calleeOwner Γ name)) name = sig.params := by
  unfold Names.func? at resolved
  unfold calleeParams calleeOwner Scope.func?
  cases hf : Γ.funcs.lookup name with
  | some sig' =>
    rw [hf, Option.some_or] at resolved
    cases resolved
    simp [Scopes.get, h.globalFuncs, hf]
  | none =>
    rw [hf, Option.none_or] at resolved
    have hb : Scope.builtins.funcs.lookup name = some sig := resolved
    simp [Scopes.get, h.builtins, hb]

theorem callCode_noted (h : Agrees env f Γ.funcs) {name sig : Bytes} {loc : Location}
    {ch : List Node} :
    callCode (env.scopes.get (calleeOwner Γ name))
        ⟨.id, name, loc, some ⟨sig, some (calleeOwner Γ name)⟩, ch⟩ = callOps Γ name := by
  unfold callCode callOps calleeOwner
  by_cases hf : (Γ.funcs.lookup name).isSome
  · simp [hf, Node.scope?, Scopes.get, Scope.storageName, h.globalTag, globalName]
  · have htag : env.scopes.builtins.tag = utf8 "D" := by
      rw [h.builtins]
      rfl
    by_cases hhalt : name = utf8 "halt"
    · subst hhalt
      simp [hf, Node.scope?, Scopes.get, Scope.storageName, htag, libraryName]
    · simp [hf, Node.scope?, Scopes.get, Scope.storageName, htag, libraryName, hhalt]

/-- Only a literal has the type of strings. -/
theorem kind_of_hasType_string (valued : Γ.Valued) {n : Node} {ty : Ty} (typed : HasType Γ n ty)
    (isString : ty = .string) : n.kind = .string := by
  cases typed with
  | string => rfl
  | name declared =>
    have := valued.var declared
    rw [isString] at this
    cases this
  | assignment target left _ =>
    cases left with
    | name declared =>
      have := valued.var declared
      rw [isString] at this
      cases this
    | _ => simp at target
  | @call _ _ _ _ _ _ _ _ _ _ _ sig resolved _ _ =>
    rcases valued.func resolved with hsig | ⟨-, -, rfl⟩
    · rcases hsig.result with hvalue | hvoid
      · rw [isString] at hvalue
        cases hvalue
      · rw [isString] at hvoid
        cases hvoid
    · cases isString
  | _ => cases isString

theorem takesString_of_valued {sig : Signature} (h : sig.Valued) :
    takesString sig.params = false := by
  unfold takesString
  rw [← Bool.not_eq_true, List.contains_iff_mem]
  intro hmem
  exact absurd (h.params _ hmem) (by decide)

/-! ## Expressions -/

theorem commented_of (env : Env) (n : Node) (code : Code) :
    Commented code (commented env n code) := by
  unfold commented
  split
  · exact .comment _
  · exact .bare

theorem argsCode_of_checkExpressions {args : List Node}
    (each : ∀ a ∈ args, ∀ {ty : Ty} {a' : Node}, checkExpression c a = (.ok ty, a') →
      ∀ s, ∃ code s', expression env a' s = .ok (code, s') ∧ ExprCode f.tag Γ a ty s code s')
    {tys : List Ty} {args' : List Node} (accepted : checkExpressions c args = (.ok tys, args'))
    (s : State) :
    ∃ code s', arguments env args' s = .ok (code, s') ∧ ArgsCode f.tag Γ args tys s code s' := by
  induction args generalizing tys args' s with
  | nil =>
    obtain ⟨rfl, rfl⟩ := Check.checkExpressions_nil.mp accepted
    exact ⟨[], s, rfl, .nil⟩
  | cons a rest ih =>
    obtain ⟨ty, a', tys', rest', ha, hrest, rfl, rfl⟩ := Check.checkExpressions_cons.mp accepted
    obtain ⟨code, s₁, hcode, hexpr⟩ := each a List.mem_cons_self ha s
    obtain ⟨more, s₂, hmore, hargs⟩ := ih (fun a ha => each a (List.mem_cons_of_mem _ ha)) hrest s₁
    refine ⟨commented env a' code ++ more, s₂, ?_, .cons hexpr (commented_of env a' code) hargs⟩
    rw [arguments, step_bind hcode, step_bind hmore, step_pure]

/-- An accepted expression with its notes has code. -/
theorem exprCode_of_checkExpression (h : Inside f c inner inLoop Γ) (valued : Γ.Valued)
    (agrees : Agrees env f Γ.funcs) {n : Node} :
    ∀ {ty : Ty} {n' : Node}, checkExpression c n = (.ok ty, n') →
      ∀ s, ∃ code s', expression env n' s = .ok (code, s') ∧ ExprCode f.tag Γ n ty s code s' := by
  induction n using Node.induction with
  | step n ih =>
    intro ty n' accepted s
    cases Check.checkExpression_ok_iff.mp accepted with
    | @id attr loc ch owner ty found =>
      obtain ⟨declared, rfl⟩ := h.lookup_ok_iff.mp found
      refine ⟨_, s, ?_, .name declared⟩
      rw [expression]
      exact step_bind (load_noted agrees s)
    | @literal kind attr loc ch ty isLiteral =>
      cases kind <;> simp only [Kind.literalType?, reduceCtorEq, Option.some.injEq] at isLiteral
      all_goals subst isLiteral
      · exact ⟨_, s, by rw [expression]; rfl, .number⟩
      · exact ⟨_, s, by rw [expression]; rfl, .string⟩
      · exact ⟨_, s, by rw [expression]; rfl, .trueLiteral⟩
      · exact ⟨_, s, by rw [expression]; rfl, .falseLiteral⟩
    | @unary op attr loc e e' acceptedOperand =>
      obtain ⟨code, s₁, hcode, hexpr⟩ :=
        ih e (Node.mem_descendants_of_child (by simp)) acceptedOperand s
      cases op with
      | neg => exact ⟨_, s₁, by rw [expression, step_bind hcode]; rfl, .negation hexpr⟩
      | not => exact ⟨_, s₁, by rw [expression, step_bind hcode]; rfl, .complement hexpr⟩
    | @binary op attr loc l r l' r' left right ty target acceptedLeft acceptedRight rule =>
      obtain rfl : right = left := BinaryOp.typing_operands rule
      obtain ⟨rightCode, s₁, hright, hr⟩ :=
        ih r (Node.mem_descendants_of_child (by simp)) acceptedRight s
      by_cases hassign : op = .assign
      · subst hassign
        rcases l with ⟨kind, name, nameLoc, nameNote, nameCh⟩
        obtain rfl : kind = .id := target rfl
        cases Check.checkExpression_ok_iff.mp acceptedLeft with
        | literal isLiteral => cases isLiteral
        | id found =>
          obtain ⟨declared, rfl⟩ := h.lookup_ok_iff.mp found
          obtain rfl : right = ty := by simpa [BinaryOp.typing] using rule
          refine ⟨_, s₁, ?_, .assignment declared hr⟩
          rw [expression]
          exact (step_bind hright).trans
            ((step_bind (store_noted agrees s₁)).trans (step_bind (load_noted agrees s₁)))
      · obtain ⟨leftCode, s₁, hleft, hl⟩ :=
          ih l (Node.mem_descendants_of_child (by simp)) acceptedLeft s
        obtain ⟨rightCode, s₂, hright, hr⟩ :=
          ih r (Node.mem_descendants_of_child (by simp)) acceptedRight s₁
        cases op with
        | assign => exact absurd rfl hassign
        | and =>
          obtain ⟨rfl, -, rfl⟩ := BinaryOp.uniform_ok rule
          exact ⟨_, s₂, by rw [expression, step_bind hleft, step_bind hright]; rfl, .and hl hr⟩
        | or =>
          obtain ⟨rfl, -, rfl⟩ := BinaryOp.uniform_ok rule
          exact ⟨_, s₂, by rw [expression, step_bind hleft, step_bind hright]; rfl, .or hl hr⟩
        | _ =>
          refine ⟨_, s₂, ?_, .arithmetic rfl rule hl hr⟩
          rw [expression, step_bind hleft, step_bind hright]
          · rfl
          all_goals simp
    | @call attr loc name nameLoc nameCh listAttr listLoc listNote args args' owner sig resolved
        acceptedArgs =>
      obtain ⟨hsig, rfl⟩ := h.resolveCall_ok_iff.mp resolved
      have hparams := calleeParams_owner agrees hsig
      have howner : ∀ s : State, ownerOf env
          ⟨.id, name, nameLoc, some ⟨sig.text, some (calleeOwner Γ name)⟩, nameCh⟩ s =
            .ok (env.scopes.get (calleeOwner Γ name), s) := fun _ => rfl
      have each : ∀ a ∈ args, ∀ {ty : Ty} {a' : Node}, checkExpression c a = (.ok ty, a') →
          ∀ s, ∃ code s', expression env a' s = .ok (code, s') ∧
            ExprCode f.tag Γ a ty s code s' := fun a ha =>
        ih a (Node.mem_descendants_of_argument ha)
      rcases valued.func hsig with hvalued | ⟨hlibrary, rfl, rfl⟩
      · obtain ⟨code, s₁, hcode, hargs⟩ := argsCode_of_checkExpressions each acceptedArgs s
        refine ⟨_, s₁, ?_, .call hsig hvalued hargs⟩
        rw [expression, step_bind (howner s), hparams, takesString_of_valued hvalued]
        simp only [Bool.false_eq_true, if_false]
        rw [step_bind hcode, callCode_noted agrees, step_pure]
      · -- the only argument is a literal, which is not lowered but interned
        obtain ⟨literal, literal', rfl, rfl, hliteral⟩ := Check.checkExpressions_singleton acceptedArgs
        have hkind := kind_of_hasType_string valued (Check.hasType_of_checkExpression h hliteral) rfl
        rcases literal with ⟨kind, raw, rawLoc, rawNote, rawCh⟩
        obtain rfl : kind = .string := hkind
        cases Check.checkExpression_ok_iff.mp hliteral with
        | literal _ =>
          refine ⟨_, _, ?_, .print hlibrary⟩
          have hcall : callOps Γ (utf8 "prints") = [.op (.call (libraryName (utf8 "prints")))] := by
            unfold callOps
            rw [hlibrary, if_neg (by decide), if_neg (by decide)]
          rw [expression, step_bind (howner s), hparams, if_pos (by decide)]
          dsimp only
          rw [step_bind (intern_ok raw s), callCode_noted agrees, hcall]
          rfl

/-! ## Statements -/

/-- The note on an accepted expression is its type. -/
theorem sig_of_checkExpression {n n' : Node} {ty : Ty}
    (accepted : checkExpression c n = (.ok ty, n')) : n'.sig = ty.text := by
  cases Check.checkExpression_ok_iff.mp accepted <;> rfl

theorem kind_of_checkExpression {n n' : Node} {ty : Ty}
    (accepted : checkExpression c n = (.ok ty, n')) : n'.kind = n.kind := by
  cases Check.checkExpression_ok_iff.mp accepted <;> rfl

theorem statement_call {loops : List Nat} {n : Node} (isCall : n.kind = .functionInvocation) :
    statement env loops n = expression env n >>= fun code => pure (discarding n code) := by
  rcases n with ⟨kind, attr, loc, note, children⟩
  obtain rfl : kind = .functionInvocation := isCall
  rw [statement]

theorem discarding_noted {n n' : Node} {ty : Ty}
    (accepted : checkExpression c n = (.ok ty, n')) (code : Code) :
    discarding n' code = dropValue ty code := by
  unfold discarding producesValue dropValue
  rw [sig_of_checkExpression accepted]
  cases ty <;> rfl

/-- At the top of a statement a comment may follow the expression. -/
theorem topCode_of_checkExpression (h : Inside f c inner inLoop Γ) (valued : Γ.Valued)
    (agrees : Agrees env f Γ.funcs) {n n' : Node} {ty : Ty}
    (accepted : checkExpression c n = (.ok ty, n')) (s : State) :
    ∃ code code' s', topExpression env n' s = .ok (code', s') ∧
      ExprCode f.tag Γ n ty s code s' ∧ Commented code code' := by
  obtain ⟨code, s', hcode, hexpr⟩ := exprCode_of_checkExpression h valued agrees accepted s
  refine ⟨code, commented env n' code, s', ?_, hexpr, ?_⟩
  · unfold topExpression
    rw [step_bind hcode, step_pure]
  · unfold commented
    split
    · exact .comment _
    · exact .bare

theorem stmtsCode_of_checkStatements {result : Ty} {loops : List Nat} {ss : List Node}
    (nested : inner = [] → ∀ s ∈ ss, s.kind ≠ .variableDeclaration)
    (each : ∀ n ∈ ss, ∀ {c c' : Context} {n' : Node}, Inside f c inner inLoop Γ →
      checkStatementIn none c n = (.ok (), n', c') → ∀ s, ∃ code s',
        statement env loops n' s = .ok (code, s') ∧ StmtCode f.tag Γ result loops n s code s')
    {c c' : Context} {ss' : List Node} (h : Inside f c inner inLoop Γ)
    (accepted : checkStatements c ss = (.ok (), ss', c')) (s : State) :
    ∃ code s', statements env loops ss' s = .ok (code, s') ∧
      StmtsCode f.tag Γ result loops ss s code s' := by
  induction ss generalizing c ss' s with
  | nil =>
    obtain ⟨rfl, rfl⟩ := Check.checkStatements_nil.mp accepted
    exact ⟨[], s, rfl, .nil⟩
  | cons n rest ih =>
    obtain ⟨n', c₁, rest', hn, hrest, rfl⟩ := Check.checkStatements_cons.mp accepted
    have hframe := Check.checkStatementIn_frame h (by simp)
      (fun hnil => nested hnil n List.mem_cons_self) hn
    obtain ⟨code, s₁, hcode, hfirst⟩ := each n List.mem_cons_self h hn s
    obtain ⟨more, s₂, hmore, hothers⟩ := ih (fun hnil m hm => nested hnil m (List.mem_cons_of_mem _ hm))
      (fun m hm => each m (List.mem_cons_of_mem _ hm)) (h.of_frame hframe) hrest s₁
    refine ⟨code ++ more, s₂, ?_, .cons hfirst hothers⟩
    rw [statements, step_bind hcode, step_bind hmore, step_pure]

/-- An accepted statement with its notes has code. -/
theorem stmtCode_of_checkStatementIn (valued : Γ.Valued) (agrees : Agrees env f Γ.funcs)
    {n : Node} :
    ∀ {own : Option ScopeId} {c c' : Context} {n' : Node} {inner : List Nat} {inLoop : Bool}
      {loops : List Nat},
      Inside f c inner inLoop Γ → (own.isSome → inner ≠ []) →
      (inner = [] → n.kind ≠ .variableDeclaration) → (inLoop = true → loops ≠ []) →
      checkStatementIn own c n = (.ok (), n', c') → ∀ s, ∃ code s',
        statement env loops n' s = .ok (code, s') ∧ StmtCode f.tag Γ f.result loops n s code s' := by
  induction n using Node.induction with
  | step n ih =>
    intro own c c' n' inner inLoop loops h hown hkind hloops accepted s
    have child : ∀ {m : Node}, m ∈ n.children → m ∈ n.descendants := Node.mem_descendants_of_child
    cases Check.checkStatementIn_ok_iff.mp accepted with
    | @block _ loc ch ch' c' acceptedAll =>
      cases own with
      | some id =>
        have hne : inner ≠ [] := hown rfl
        obtain ⟨code, s', hcode, hall⟩ := stmtsCode_of_checkStatements
          (fun hnil => absurd hnil hne) (fun m hm _ _ _ hc => ih m (child hm) hc (by simp)
            (fun hnil => absurd hnil hne) hloops) h acceptedAll s
        exact ⟨code, s', by rw [statement]; exact hcode, .block hall⟩
      | none =>
        obtain ⟨-, hin⟩ := h.enter (.inl rfl) loc
        obtain ⟨code, s', hcode, hall⟩ := stmtsCode_of_checkStatements (by simp)
          (fun m hm _ _ _ hc => ih m (child hm) hc (by simp) (by simp) (by simpa using hloops))
          hin acceptedAll s
        exact ⟨code, s', by rw [statement]; exact hcode, .block hall⟩
    | declaration isType isTop inFunction fresh =>
      obtain ⟨hnil, -⟩ := h.top_variant isTop inFunction
      exact absurd rfl (hkind hnil)
    | expression acceptedExpr =>
      obtain ⟨code, code', s', hcode, hexpr, hcomment⟩ :=
        topCode_of_checkExpression h valued agrees acceptedExpr s
      refine ⟨_, s', ?_, .expression hexpr hcomment⟩
      rw [statement, step_bind hcode, discarding_noted acceptedExpr, step_pure]
    | @call _ _ ty isCall acceptedCall =>
      obtain ⟨code, s', hcode, hexpr⟩ := exprCode_of_checkExpression h valued agrees acceptedCall s
      refine ⟨_, s', ?_, .call isCall hexpr⟩
      have isCall' := (kind_of_checkExpression acceptedCall).trans isCall
      rw [statement_call isCall', step_bind hcode, discarding_noted acceptedCall, step_pure]
    | null => exact ⟨[], s, by rw [statement]; rfl, .null⟩
    | @ifThen _ _ _ _ _ arm _ _ _ isInside acceptedCond acceptedArm =>
      subst isInside
      obtain ⟨-, hin⟩ := h.enter (.inl rfl) arm.loc
      obtain ⟨test, test', s₁, htest, hcond, hcomment⟩ :=
        topCode_of_checkExpression h valued agrees acceptedCond s
      obtain ⟨code, s₂, hcode, harm⟩ :=
        ih arm (child (by simp)) hin (by simp) (by simp) (by simpa using hloops) acceptedArm s₁
      refine ⟨_, s₂, ?_, .ifThen hcond hcomment harm⟩
      rw [statement, step_bind htest, step_bind hcode, step_pure]
    | @ifElse _ _ _ _ _ arm₁ _ arm₂ _ _ _ c₁ _ isInside₁ isInside₂ acceptedCond accepted₁
        accepted₂ =>
      have hframe := Check.frame_of_scoped Check.checkStatementIn_frame h (.inl rfl) isInside₁
        accepted₁
      subst isInside₁ isInside₂
      obtain ⟨-, hin₁⟩ := h.enter (.inl rfl) arm₁.loc
      obtain ⟨-, hin₂⟩ := (h.of_frame hframe).enter (.inl rfl) arm₂.loc
      obtain ⟨test, test', s₁, htest, hcond, hcomment⟩ :=
        topCode_of_checkExpression h valued agrees acceptedCond s
      obtain ⟨code₁, s₂, hcode₁, harm₁⟩ :=
        ih arm₁ (child (by simp)) hin₁ (by simp) (by simp) (by simpa using hloops) accepted₁ s₁
      obtain ⟨code₂, s₃, hcode₂, harm₂⟩ :=
        ih arm₂ (child (by simp)) hin₂ (by simp) (by simp) (by simpa using hloops) accepted₂ s₂
      refine ⟨_, s₃, ?_, .ifElse hcond hcomment harm₁ harm₂⟩
      rw [statement, step_bind htest, step_bind hcode₁, step_bind hcode₂,
        step_pure]
    | @«while» _ _ _ _ _ body _ _ _ isInside acceptedCond acceptedBody =>
      subst isInside
      obtain ⟨-, hin⟩ := h.enter (.inr rfl) body.loc
      obtain ⟨test, test', s₁, htest, hcond, hcomment⟩ :=
        topCode_of_checkExpression h valued agrees acceptedCond { s with labels := s.labels + 1 }
      obtain ⟨code, s₂, hcode, hbody⟩ : ∃ code s', statement env (s.labels :: loops) _ s₁ =
          .ok (code, s') ∧ StmtCode f.tag Γ f.result (s.labels :: loops) body s₁ code s' :=
        ih body (child (by simp)) hin (by simp) (by simp) (by simp) acceptedBody s₁
      obtain ⟨again, again', s₃, hagain, hcond', hcomment'⟩ :=
        topCode_of_checkExpression h valued agrees acceptedCond s₂
      refine ⟨_, s₃, ?_, .while hcond hcomment hbody hcond' hcomment'⟩
      rw [statement, step_bind (freshLabel_ok s), step_bind htest, step_bind hcode,
        step_bind hagain, step_pure]
    | returnNothing inFunction isVoid =>
      obtain rfl := Option.some.inj (h.nearest_function.symm.trans inFunction)
      rw [h.get_function] at isVoid
      exact ⟨_, s, by rw [statement]; rfl, .returnNothing isVoid⟩
    | returnValue inFunction hasResult acceptedValue =>
      obtain rfl := Option.some.inj (h.nearest_function.symm.trans inFunction)
      rw [h.get_function] at hasResult acceptedValue
      obtain ⟨code, code', s', hcode, hexpr, hcomment⟩ :=
        topCode_of_checkExpression h valued agrees acceptedValue s
      refine ⟨_, s', ?_, .returnValue hasResult hexpr hcomment⟩
      rw [statement, step_bind hcode, step_pure]
    | «break» isLoop =>
      have hloop := h.nearest_loop_isSome
      rw [isLoop] at hloop
      obtain ⟨num, rest, rfl⟩ := List.exists_cons_of_ne_nil (hloops hloop.symm)
      exact ⟨_, s, by rw [statement]; rfl, .break⟩

end TreeWat.Lower
