import TreeWat.Proofs.Lower.Simulation.Function
set_option autoImplicit false

/-!
# Lower: code that control does not pass

A statement that the third round of the check takes to be decisive is not followed by the
next one in generated code either, whatever machine that runs on: `Diverts` holds of its
code.  Of the calls that are statements, exactly the decisive ones are followed by an
`unreachable` of their own.  That is shown of any accepted call, wherever it stands in a
program.
-/

namespace TreeWat.Lower

open Wat (Code Op Instr Machine execCode)
open Check (Context checkExpression checkExpressions checkStatementIn exitOf exitOfAll)

/-! ## Code that control does not pass -/

/-- Control never comes to the end of the code. -/
def Diverts (M : Machine) (code : Code) : Prop :=
  ∀ c c', (execCode M code c).res ≠ .ok (.next, c')

section Diverts

variable {M : Machine} {code more : Code}

/-- Only an end of both parts is an end of the whole. -/
theorem passes_append {c c' : Wat.Config} (h : (execCode M (code ++ more) c).res = .ok (.next, c')) :
    ∃ c₁, (execCode M code c).res = .ok (.next, c₁) ∧
      (execCode M more c₁).res = .ok (.next, c') := by
  rw [Wat.execCode_append, Run.bind_res_eq_ok] at h
  obtain ⟨⟨flow, c₁⟩, hfirst, hrest⟩ := h
  cases flow with
  | next => exact ⟨c₁, hfirst, hrest⟩
  | branch label => cases hrest
  | ret => cases hrest

theorem Diverts.append_left (h : Diverts M code) (more : Code) : Diverts M (code ++ more) := by
  intro c c' hend
  obtain ⟨c₁, hfirst, -⟩ := passes_append hend
  exact h c c₁ hfirst

theorem Diverts.append_right (h : Diverts M more) (code : Code) : Diverts M (code ++ more) := by
  intro c c' hend
  obtain ⟨c₁, -, hrest⟩ := passes_append hend
  exact h c₁ c' hrest

theorem diverts_ret : Diverts M [.op .ret] := by
  intro c c' hend
  rw [Wat.exec_ret] at hend
  cases hend

theorem diverts_br (label : Bytes) : Diverts M [.op (.br label)] := by
  intro c c' hend
  rw [Wat.exec_br] at hend
  cases hend

theorem diverts_unreachable : Diverts M [.op .unreachable] := by
  intro c c' hend
  rw [Wat.execCode_op, Op.exec] at hend
  cases hend

/-- An arm that control does not pass does not end its conditional. -/
theorem Diverts.arm (h : Diverts M code) (stack : List Word) (c c' : Wat.Config) :
    (execCode M code c >>= Wat.leave none stack).res ≠ .ok (.next, c') := by
  rw [ne_eq, Run.bind_res_eq_ok]
  rintro ⟨⟨flow, c₁⟩, harm, hleave⟩
  cases flow with
  | next => exact h c c₁ harm
  | branch label => cases hleave
  | ret => cases hleave

theorem Diverts.cond {whenTrue whenFalse : Code} (hTrue : Diverts M whenTrue)
    (hFalse : Diverts M whenFalse) : Diverts M [.cond whenTrue whenFalse] := by
  rintro ⟨stack, locals, store⟩ c' hend
  cases stack with
  | nil =>
    rw [Wat.execCode_cons, Wat.Instr.exec] at hend
    cases hend
  | cons w stack =>
    by_cases hzero : w = 0
    · subst hzero
      rw [Wat.exec_cond_zero, Wat.bind_afterNext_nil] at hend
      exact hFalse.arm stack _ c' hend
    · rw [Wat.exec_cond hzero, Wat.bind_afterNext_nil] at hend
      exact hTrue.arm stack _ c' hend

theorem Diverts.dropValue (h : Diverts M code) (ty : Ty) : Diverts M (dropValue ty code) := by
  unfold Lower.dropValue
  split
  · exact h.append_left _
  · exact h

end Diverts

/-! ## Decisive statements in generated code -/

section Code

variable {tag : Bytes} {Γ : Names} {result : Ty} {M : Machine} {scopes : Scopes} {ss : List Node}

/-- The classification knows the library's `halt` by its name, if no function of the user
has that name. -/
theorem halts_iff (builtins : scopes.builtins = .builtins) {name : Bytes} :
    Check.halts scopes name = true ↔
      name = utf8 "halt" ∧ scopes.globals.funcs.lookup name = none := by
  have hlibrary : (Scope.builtins.func? (utf8 "halt")).isSome = true := rfl
  simp only [Check.halts, Bool.and_eq_true, beq_iff_eq, Option.isNone_iff_eq_none, builtins]
  constructor
  · rintro ⟨⟨hname, huser⟩, -⟩
    exact ⟨hname, huser⟩
  · rintro ⟨rfl, huser⟩
    exact ⟨⟨rfl, huser⟩, hlibrary⟩

theorem diverts_callOps {name : Bytes} (builtins : scopes.builtins = .builtins)
    (userFuncs : scopes.globals.funcs = Γ.funcs) (halts : Check.halts scopes name = true) :
    Diverts M (callOps Γ name) := by
  obtain ⟨rfl, huser⟩ := (halts_iff builtins).mp halts
  rw [userFuncs] at huser
  rw [callOps, huser, if_neg (by simp), if_pos rfl]
  exact diverts_unreachable.append_right [.op (.call (libraryName (utf8 "halt")))]

/-- What decides a sequence: its first statement, or the others behind one that does not. -/
theorem exitOfAll_cons {n : Node} {rest : List Node} {e : Check.Exit}
    (exit : exitOfAll scopes (n :: rest) = .ok e) :
    exitOf scopes n = .ok .doesNotAlwaysReturn ∧ exitOfAll scopes rest = .ok e ∨
      exitOf scopes n = .ok e := by
  rw [exitOfAll] at exit
  cases hfirst : exitOf scopes n with
  | error err =>
    rw [hfirst] at exit
    cases exit
  | ok e₁ =>
    rw [hfirst] at exit
    cases e₁ with
    | doesNotAlwaysReturn => exact .inl ⟨rfl, exit⟩
    | alwaysReturns => exact .inr exit
    | alwaysBreaks => exact .inr exit

/-- Control does not pass the code of statements of which one is decisive. -/
theorem StmtsCode.diverts (each : ∀ n ∈ ss, ∀ {loops : List Nat} {s s' : State} {code : Code},
      StmtCode tag Γ result loops n s code s' → ∀ {e}, exitOf scopes n = .ok e →
        e ≠ .doesNotAlwaysReturn → Diverts M code)
    {loops : List Nat} {s s' : State} {code : Code}
    (h : StmtsCode tag Γ result loops ss s code s') {e : Check.Exit}
    (exit : exitOfAll scopes ss = .ok e) (decisive : e ≠ .doesNotAlwaysReturn) :
    Diverts M code := by
  induction ss generalizing s code with
  | nil =>
    cases exit
    exact absurd rfl decisive
  | cons n rest ih =>
    cases h with
    | @cons _ _ _ _ first _ more _ firstCode others =>
      rcases exitOfAll_cons exit with ⟨-, hothers⟩ | hfirst
      · have hrest := ih (fun m hm => each m (List.mem_cons_of_mem _ hm)) others hothers
        exact hrest.append_right first
      · exact (each n List.mem_cons_self firstCode hfirst decisive).append_left more

/-- Control does not pass the code of a decisive statement. -/
theorem StmtCode.diverts (builtins : scopes.builtins = .builtins)
    (userFuncs : scopes.globals.funcs = Γ.funcs) {n : Node} :
    ∀ {loops : List Nat} {s s' : State} {code : Code}, StmtCode tag Γ result loops n s code s' →
      ∀ {e}, exitOf scopes n = .ok e → e ≠ .doesNotAlwaysReturn → Diverts M code := by
  induction n using Node.induction with
  | step n ih =>
    intro loops s s' code h e exit decisive
    have child : ∀ {m : Node}, m ∈ n.children → m ∈ n.descendants := Node.mem_descendants_of_child
    cases h with
    | block statements =>
      rw [exitOf] at exit
      exact statements.diverts (fun m hm => ih m (child hm)) exit decisive
    | call isCall value =>
      -- only the library's `halt` is decisive, and behind its call stands `unreachable`
      refine Diverts.dropValue ?_ _
      cases value with
      | @call _ _ _ name _ _ _ _ _ _ _ _ _ before _ _ _ arguments =>
        simp only [exitOf] at exit
        by_cases hhalts : Check.halts scopes name = true
        · exact (diverts_callOps builtins userFuncs hhalts).append_right before
        · rw [if_neg hhalts] at exit
          cases exit
          exact absurd rfl decisive
      | print library =>
        have hother : Check.halts scopes (utf8 "prints") = false := rfl
        simp only [exitOf, hother] at exit
        cases exit
        exact absurd rfl decisive
      | _ => cases isCall
    | @ifElse _ _ _ _ _ arm₁ arm₂ _ _ test' _ _ _ _ _ _ _ whenTrue whenFalse =>
      simp only [exitOf] at exit
      obtain ⟨exit₁, exit₂⟩ := exitOf_arms exit decisive
      refine Diverts.append_right (Diverts.cond ?_ ?_) test'
      · exact ih arm₁ (child (by simp)) whenTrue exit₁ decisive
      · exact ih arm₂ (child (by simp)) whenFalse exit₂ decisive
    | returnNothing isVoid => exact diverts_ret
    | @returnValue _ _ _ _ _ _ _ code' _ hasResult valueCode commented =>
      exact diverts_ret.append_right code'
    | «break» => exact diverts_br _
    | _ =>
      -- no other statement is decisive, a loop included
      simp only [exitOf] at exit
      cases exit
      exact absurd rfl decisive

theorem BodyCode.diverts {Γ : Names} (builtins : scopes.builtins = .builtins)
    (userFuncs : scopes.globals.funcs = Γ.funcs) {s s' : State} {code : Code}
    (h : BodyCode tag result Γ ss s code s') {e : Check.Exit}
    (exit : exitOfAll scopes ss = .ok e) (decisive : e ≠ .doesNotAlwaysReturn) :
    Diverts M code := by
  induction h with
  | nil =>
    cases exit
    exact absurd rfl decisive
  | @declaration _ n _ _ _ _ _ _ isDeclaration _ _ ih =>
    have hgoesOn : exitOf scopes n = .ok .doesNotAlwaysReturn := by
      rcases n with ⟨kind, attr, loc, note, children⟩
      obtain rfl : kind = .variableDeclaration := isDeclaration
      simp [exitOf]
    rcases exitOfAll_cons exit with ⟨-, hothers⟩ | hfirst
    · exact ih userFuncs hothers
    · cases hgoesOn.symm.trans hfirst
      exact absurd rfl decisive
  | @statement _ n _ _ first _ more _ firstCode _ ih =>
    rcases exitOfAll_cons exit with ⟨-, hothers⟩ | hfirst
    · exact (ih userFuncs hothers).append_right first
    · exact (firstCode.diverts builtins userFuncs hfirst decisive).append_left more

/-- Control does not come to the end of the code of a function with a result. -/
theorem FunctionCode.diverts {globals : List (Bytes × Ty)} {funcs : List (Bytes × Signature)}
    {d : Node} {name : Bytes} {sig : Signature} {f : Wat.Func Op} {s s' : State}
    (h : FunctionCode globals funcs d name sig f s s') (hasResult : f.result = true) :
    ∃ code, f.body = code ++ [.op .unreachable] ∧ ∀ M, Diverts M code := by
  cases h with
  | @intro _ _ _ _ _ _ _ _ _ _ _ _ _ _ _ _ _ result _ _ _ _ _ code _ _ _ _ _ body builtins
      userFuncs returns =>
    have notVoid : result ≠ .void := of_decide_eq_true hasResult
    exact ⟨code, if_pos notVoid, fun M =>
      body.diverts builtins userFuncs (returns notVoid) (by decide)⟩

end Code

/-! ## Calls that are statements -/

section Calls

variable {c c' : Context} {scopes : Scopes} {debug : Bool}

theorem resolveCall_cases {name : Bytes} {loc : Location} {owner : ScopeId} {sig : Signature}
    (resolved : c.scopes.resolveCall name loc = .ok (owner, sig)) :
    owner = .globals ∧ c.scopes.globals.func? name = some sig ∨
      owner = .builtins ∧ c.scopes.globals.func? name = none ∧
        c.scopes.builtins.func? name = some sig := by
  unfold Scopes.resolveCall at resolved
  cases huser : c.scopes.globals.func? name with
  | some sig' =>
    rw [huser] at resolved
    cases resolved
    exact .inl ⟨rfl, rfl⟩
  | none =>
    cases hlibrary : c.scopes.builtins.func? name with
    | some sig' =>
      rw [huser, hlibrary] at resolved
      cases resolved
      exact .inr ⟨rfl, rfl, rfl⟩
    | none =>
      rw [huser, hlibrary] at resolved
      dsimp only at resolved
      split at resolved <;> cases resolved

/-- The two agree on what is program-wide. -/
structure SameGlobals (scopes scopes' : Scopes) : Prop where
  globals : scopes.globals = scopes'.globals
  builtins : scopes.builtins = scopes'.builtins

theorem calleeParams_resolved (same : SameGlobals scopes c.scopes) {name : Bytes} {loc : Location}
    {owner : ScopeId} {sig : Signature}
    (resolved : c.scopes.resolveCall name loc = .ok (owner, sig)) :
    calleeParams (scopes.get owner) name = sig.params := by
  unfold calleeParams
  rcases resolveCall_cases resolved with ⟨rfl, huser⟩ | ⟨rfl, -, hlibrary⟩
  · rw [Scopes.get, same.globals, huser]
  · rw [Scopes.get, same.builtins, hlibrary]

theorem arguments_ok {args : List Node}
    (each : ∀ a ∈ args, ∀ {ty : Ty} {a' : Node}, checkExpression c a = (.ok ty, a') →
      ∀ s, ∃ code s', expression ⟨scopes, debug⟩ a' s = .ok (code, s'))
    {tys : List Ty} {args' : List Node} (accepted : checkExpressions c args = (.ok tys, args'))
    (s : State) :
    args'.length = tys.length ∧
      ∃ code s', arguments ⟨scopes, debug⟩ args' s = .ok (code, s') := by
  induction args generalizing tys args' s with
  | nil =>
    obtain ⟨rfl, rfl⟩ := Check.checkExpressions_nil.mp accepted
    exact ⟨rfl, [], s, rfl⟩
  | cons a rest ih =>
    obtain ⟨ty, a', tys', rest', ha, hrest, rfl, rfl⟩ := Check.checkExpressions_cons.mp accepted
    obtain ⟨code, s₁, hcode⟩ := each a List.mem_cons_self ha s
    obtain ⟨hlength, more, s₂, hmore⟩ :=
      ih (fun b hb => each b (List.mem_cons_of_mem _ hb)) hrest s₁
    refine ⟨congrArg (· + 1) hlength, commented ⟨scopes, debug⟩ a' code ++ more, s₂, ?_⟩
    rw [arguments, step_bind hcode, step_bind hmore, step_pure]

/-- The code of a call ends in the call instruction, whether its arguments are lowered or a
literal is interned. -/
theorem expression_call (same : SameGlobals scopes c.scopes) {attr : Bytes} {loc : Location}
    {note : Option Annotation} {name : Bytes} {nameLoc : Location} {nameCh : List Node}
    {listAttr : Bytes} {listLoc : Location} {listNote : Option Annotation} {args' : List Node}
    {owner : ScopeId} {sig : Signature}
    (resolved : c.scopes.resolveCall name loc = .ok (owner, sig))
    (count : args'.length = sig.params.length) {s : State}
    (lowered : ∃ code s', arguments ⟨scopes, debug⟩ args' s = .ok (code, s')) :
    ∃ before s', expression ⟨scopes, debug⟩ ⟨.functionInvocation, attr, loc, note,
        [⟨.id, name, nameLoc, some ⟨sig.text, some owner⟩, nameCh⟩,
          ⟨.argumentList, listAttr, listLoc, listNote, args'⟩]⟩ s =
      .ok (before ++ callCode (scopes.get owner)
        ⟨.id, name, nameLoc, some ⟨sig.text, some owner⟩, nameCh⟩, s') := by
  have howner : ∀ s : State, ownerOf ⟨scopes, debug⟩
      ⟨.id, name, nameLoc, some ⟨sig.text, some owner⟩, nameCh⟩ s =
        .ok (scopes.get owner, s) := fun _ => rfl
  rw [expression, step_bind (howner s), calleeParams_resolved same resolved]
  cases hstring : takesString sig.params with
  | false =>
    obtain ⟨code, s', hcode⟩ := lowered
    refine ⟨code, s', ?_⟩
    simp only [Bool.false_eq_true, if_false]
    rw [step_bind hcode, step_pure]
  | true =>
    -- the callee takes a string, so there is an argument to intern
    obtain ⟨literal, rest, rfl⟩ : ∃ literal rest, args' = literal :: rest := by
      refine List.exists_cons_of_length_pos ?_
      rw [count]
      exact List.length_pos_of_mem (List.contains_iff_mem.mp hstring)
    refine ⟨[.op (.number s.literals.size), .op (.number (Wat.literalLength literal.attr))],
      { s with literals := s.literals.intern literal.attr }, ?_⟩
    simp only [if_true]
    rw [step_bind (intern_ok literal.attr s)]
    rfl

theorem expression_arith {env : Env} {op : BinaryOp} {a : Wat.Arith} (isArith : arith? op = some a)
    {attr : Bytes} {loc : Location} {note : Option Annotation} {l r : Node} {s s₁ s₂ : State}
    {left right : Code} (hleft : expression env l s = .ok (left, s₁))
    (hright : expression env r s₁ = .ok (right, s₂)) :
    expression env ⟨.binary op, attr, loc, note, [l, r]⟩ s =
      .ok (left ++ right ++ [.op (.arith a)], s₂) := by
  rw [expression, step_bind hleft, step_bind hright, isArith]
  · rfl
  · rintro rfl
    cases isArith
  · rintro rfl
    cases isArith
  · rintro rfl
    cases isArith

/-- Lowering never fails on an expression that was accepted with its notes. -/
theorem expression_ok (same : SameGlobals scopes c.scopes) {n : Node} :
    ∀ {ty : Ty} {n' : Node}, checkExpression c n = (.ok ty, n') →
      ∀ s, ∃ code s', expression ⟨scopes, debug⟩ n' s = .ok (code, s') := by
  induction n using Node.induction with
  | step n ih =>
    intro ty n' accepted s
    have child : ∀ {m : Node}, m ∈ n.children → m ∈ n.descendants := Node.mem_descendants_of_child
    cases Check.checkExpression_ok_iff.mp accepted with
    | id found =>
      rw [expression]
      exact ⟨_, s, rfl⟩
    | @literal kind attr loc ch ty isLiteral =>
      cases kind <;> simp only [Kind.literalType?, reduceCtorEq] at isLiteral
      all_goals
        rw [expression]
        exact ⟨_, s, rfl⟩
    | @unary op attr loc e e' acceptedOperand =>
      obtain ⟨code, s₁, hcode⟩ := ih e (child (by simp)) acceptedOperand s
      cases op with
      | neg => exact ⟨_, s₁, by rw [expression, step_bind hcode]; rfl⟩
      | not => exact ⟨_, s₁, by rw [expression, step_bind hcode]; rfl⟩
    | @binary op attr loc l r l' r' left right ty target acceptedLeft acceptedRight rule =>
      by_cases isAssign : op = .assign
      · subst isAssign
        obtain ⟨code, s₁, hcode⟩ := ih r (child (by simp)) acceptedRight s
        rcases l with ⟨kind, name, nameLoc, nameNote, nameCh⟩
        obtain rfl : kind = .id := target rfl
        cases Check.checkExpression_ok_iff.mp acceptedLeft with
        | literal isLiteral => cases isLiteral
        | id found =>
          rw [expression]
          exact ⟨_, s₁, (step_bind hcode).trans rfl⟩
      · obtain ⟨leftCode, s₁, hleft⟩ := ih l (child (by simp)) acceptedLeft s
        obtain ⟨rightCode, s₂, hright⟩ := ih r (child (by simp)) acceptedRight s₁
        cases op with
        | assign => exact absurd rfl isAssign
        | and => exact ⟨_, s₂, by rw [expression, step_bind hleft, step_bind hright]; rfl⟩
        | or => exact ⟨_, s₂, by rw [expression, step_bind hleft, step_bind hright]; rfl⟩
        | _ => exact ⟨_, s₂, expression_arith rfl hleft hright⟩
    | call resolved acceptedArgs =>
      obtain ⟨count, lowered⟩ := arguments_ok (fun a ha => ih a (Node.mem_descendants_of_argument ha))
        acceptedArgs s
      obtain ⟨before, s', hcode⟩ := expression_call same resolved count lowered
      exact ⟨_, s', hcode⟩

/-- The call instruction is followed by `unreachable` exactly if the call is classified as
halting. -/
theorem callCode_cases (same : SameGlobals scopes c.scopes) (builtins : scopes.builtins = .builtins)
    {name : Bytes} {loc nameLoc : Location} {nameCh : List Node} {owner : ScopeId}
    {sig : Signature} (resolved : c.scopes.resolveCall name loc = .ok (owner, sig)) :
    ∃ call, callCode (scopes.get owner)
        ⟨.id, name, nameLoc, some ⟨sig.text, some owner⟩, nameCh⟩ =
          (if Check.halts scopes name then [.op (.call call), .op .unreachable]
            else [.op (.call call)]) ∧
      (Check.halts scopes name = true → sig.result = .void) := by
  refine ⟨(scopes.get owner).storageName name, ?_, ?_⟩
  · have hiff : (owner = .builtins ∧ name = utf8 "halt") ↔ Check.halts scopes name = true := by
      rw [halts_iff builtins, same.globals]
      rcases resolveCall_cases resolved with ⟨rfl, huser⟩ | ⟨rfl, huser, -⟩
      · rw [Scope.func?] at huser
        simp [huser]
      · rw [Scope.func?] at huser
        simp [huser]
    by_cases hhalts : Check.halts scopes name = true
    · obtain ⟨rfl, rfl⟩ := hiff.mpr hhalts
      rw [if_pos hhalts]
      simp [callCode, Node.scope?]
    · simp [callCode, Node.scope?, mt hiff.mp hhalts, hhalts]
  · intro hhalts
    obtain ⟨rfl, huser⟩ := (halts_iff builtins).mp hhalts
    rw [same.globals] at huser
    rcases resolveCall_cases resolved with ⟨-, hfunc⟩ | ⟨-, -, hlibrary⟩
    · cases huser.symm.trans hfunc
    · rw [← same.builtins, builtins] at hlibrary
      cases hlibrary
      rfl

/-- A call that is an accepted statement has code, which ends in `unreachable` exactly if
the call is classified as halting. -/
theorem callStatement_ok (same : SameGlobals scopes c.scopes)
    (builtins : scopes.builtins = .builtins) {own : Option ScopeId} {n n' : Node}
    (isCall : n.kind = .functionInvocation)
    (accepted : checkStatementIn own c n = (.ok (), n', c')) (loops : List Nat) (s : State) :
    ∃ callee args code s', n.children = [callee, args] ∧
      statement ⟨scopes, debug⟩ loops n' s = .ok (code, s') ∧
      exitOf scopes n' = .ok (if Check.halts scopes callee.attr then .alwaysReturns
        else .doesNotAlwaysReturn) ∧
      (code.getLast? = some (.op .unreachable) ↔ Check.halts scopes callee.attr = true) := by
  cases Check.checkStatementIn_ok_iff.mp accepted with
  | call _ acceptedCall =>
    cases Check.checkExpression_ok_iff.mp acceptedCall with
    | @call _ _ name nameLoc nameCh _ _ _ _ args' owner sig resolved acceptedArgs =>
      obtain ⟨count, lowered⟩ := arguments_ok (fun a _ => expression_ok same) acceptedArgs s
      obtain ⟨before, s', hcode⟩ := expression_call same resolved count lowered
      obtain ⟨call, hcall, hvoid⟩ := callCode_cases same builtins resolved
      rw [hcall] at hcode
      refine ⟨_, _, _, s', rfl, (congrFun (statement_call rfl) s).trans (step_bind hcode), ?_, ?_⟩
      · rw [exitOf, apply_ite Except.ok]
      · rw [discarding_noted acceptedCall]
        by_cases hhalts : Check.halts scopes name = true
        · simp [hhalts, hvoid hhalts, dropValue, Ty.hasValue]
        · unfold dropValue
          split <;> simp [hhalts]
    | literal isLiteral =>
      cases isCall
      cases isLiteral
    | _ => cases isCall
  | _ => cases isCall

end Calls

end TreeWat.Lower
