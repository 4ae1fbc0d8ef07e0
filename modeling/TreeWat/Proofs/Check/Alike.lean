import TreeWat.Proofs.Check.Exit
import TreeWat.Proofs.Check.Function
set_option autoImplicit false

/-!
# Check: acceptance depends on the names alone

A context carries more than a check asks about: tags, the scopes of functions checked
before, and the order in which names were declared.  Two contexts in which the names stand
for the same accept the same expressions, statements and functions, with the same types.
The notes differ, since they name scopes.
-/

namespace TreeWat

/-- The names stand for the same: the local variables are equal, and every name is that of
the same global variable and of the same function, in whatever order they were declared. -/
structure Names.Alike (Γ₁ Γ₂ : Names) : Prop where
  locals : Γ₁.locals = Γ₂.locals
  globals : ∀ name, Γ₁.globals.lookup name = Γ₂.globals.lookup name
  funcs : ∀ name, Γ₁.funcs.lookup name = Γ₂.funcs.lookup name

namespace Names.Alike

variable {Γ₁ Γ₂ : Names}

theorem refl (Γ : Names) : Γ.Alike Γ :=
  ⟨rfl, fun _ => rfl, fun _ => rfl⟩

theorem var? (same : Γ₁.Alike Γ₂) (name : Bytes) : Γ₁.var? name = Γ₂.var? name := by
  unfold Names.var?
  rw [same.locals, same.globals]

theorem func? (same : Γ₁.Alike Γ₂) (name : Bytes) : Γ₁.func? name = Γ₂.func? name := by
  unfold Names.func?
  rw [same.funcs]

theorem declare (same : Γ₁.Alike Γ₂) (name : Bytes) (ty : Ty) :
    (Γ₁.declare name ty).Alike (Γ₂.declare name ty) where
  locals := congrArg (· ++ [(name, ty)]) same.locals
  globals := same.globals
  funcs := same.funcs

theorem declareAll (same : Γ₁.Alike Γ₂) (vs : List (Bytes × Ty)) :
    (Γ₁.declareAll vs).Alike (Γ₂.declareAll vs) where
  locals := congrArg (· ++ vs) same.locals
  globals := same.globals
  funcs := same.funcs

end Names.Alike

namespace Check

variable {f₁ f₂ : FunctionScope} {c₁ c₂ c₁' : Context} {inner₁ inner₂ : List Nat}
  {inLoop inLoop₁ inLoop₂ : Bool} {Γ₁ Γ₂ : Names}

/-! ## Expressions -/

theorem checkExpressions_alike {args : List Node}
    (each : ∀ a ∈ args, ∀ {ty : Ty} {a₁ : Node}, checkExpression c₁ a = (.ok ty, a₁) →
      ∃ a₂, checkExpression c₂ a = (.ok ty, a₂))
    {tys : List Ty} {args₁ : List Node} (accepted : checkExpressions c₁ args = (.ok tys, args₁)) :
    ∃ args₂, checkExpressions c₂ args = (.ok tys, args₂) := by
  induction args generalizing tys args₁ with
  | nil =>
    obtain ⟨rfl, -⟩ := checkExpressions_nil.mp accepted
    exact ⟨[], checkExpressions_nil.mpr ⟨rfl, rfl⟩⟩
  | cons a rest ih =>
    obtain ⟨ty, a₁, tys', rest₁, ha, hrest, rfl, -⟩ := checkExpressions_cons.mp accepted
    obtain ⟨a₂, ha₂⟩ := each a List.mem_cons_self ha
    obtain ⟨rest₂, hrest₂⟩ := ih (fun b hb => each b (List.mem_cons_of_mem _ hb)) hrest
    exact ⟨a₂ :: rest₂, checkExpressions_cons.mpr ⟨ty, a₂, tys', rest₂, ha₂, hrest₂, rfl, rfl⟩⟩

theorem checkExpression_alike (h₁ : Inside f₁ c₁ inner₁ inLoop₁ Γ₁)
    (h₂ : Inside f₂ c₂ inner₂ inLoop₂ Γ₂) (same : Γ₁.Alike Γ₂) {n : Node} :
    ∀ {ty : Ty} {n₁ : Node}, checkExpression c₁ n = (.ok ty, n₁) →
      ∃ n₂, checkExpression c₂ n = (.ok ty, n₂) := by
  induction n using Node.induction with
  | step n ih =>
    intro ty n₁ accepted
    cases checkExpression_ok_iff.mp accepted with
    | id found =>
      have declared := (same.var? _).symm.trans (h₁.lookup_ok_iff.mp found).1
      exact ⟨_, checkExpression_ok_iff.mpr (.id (h₂.lookup_ok_iff.mpr ⟨declared, rfl⟩))⟩
    | literal isLiteral => exact ⟨_, checkExpression_ok_iff.mpr (.literal isLiteral)⟩
    | @call _ _ _ _ _ _ _ _ args _ _ sig resolved acceptedArgs =>
      have hsig := (same.func? _).symm.trans (h₁.resolveCall_ok_iff.mp resolved).1
      obtain ⟨args₂, hargs⟩ := checkExpressions_alike
        (fun a ha => ih a (Node.mem_descendants_of_argument ha)) acceptedArgs
      exact ⟨_, checkExpression_ok_iff.mpr
        (.call (h₂.resolveCall_ok_iff.mpr ⟨hsig, rfl⟩) hargs)⟩
    | @binary _ _ _ l r _ _ _ _ _ target acceptedLeft acceptedRight rule =>
      obtain ⟨l₂, hl⟩ := ih l (Node.mem_descendants_of_child (by simp)) acceptedLeft
      obtain ⟨r₂, hr⟩ := ih r (Node.mem_descendants_of_child (by simp)) acceptedRight
      exact ⟨_, checkExpression_ok_iff.mpr (.binary target hl hr rule)⟩
    | @unary _ _ _ e _ acceptedOperand =>
      obtain ⟨e₂, he⟩ := ih e (Node.mem_descendants_of_child (by simp)) acceptedOperand
      exact ⟨_, checkExpression_ok_iff.mpr (.unary he)⟩

/-! ## Statements -/

/-- An accepted statement below the outermost block is no declaration. -/
theorem kind_ne_of_checkStatementIn {f : FunctionScope} {inner : List Nat} {Γ : Names}
    {own : Option ScopeId} {c c' : Context} {n n' : Node} (h : Inside f c inner inLoop Γ)
    (hown : own.isSome → inner ≠ []) (hkind : inner = [] → n.kind ≠ .variableDeclaration)
    (accepted : checkStatementIn own c n = (.ok (), n', c')) : n.kind ≠ .variableDeclaration :=
  kind_ne_of_obeys (obeys_of_checkStatementIn h hown hkind accepted)

theorem checkStatements_alike {ss : List Node}
    (nested : inner₁ = [] → ∀ s ∈ ss, s.kind ≠ .variableDeclaration)
    (each : ∀ s ∈ ss, ∀ {c₁ c₂ c₁' : Context} {s₁ : Node}, Inside f₁ c₁ inner₁ inLoop Γ₁ →
      Inside f₂ c₂ inner₂ inLoop Γ₂ → checkStatementIn none c₁ s = (.ok (), s₁, c₁') →
      ∃ s₂ c₂', checkStatementIn none c₂ s = (.ok (), s₂, c₂'))
    {c₁ c₂ c₁' : Context} {ss₁ : List Node} (h₁ : Inside f₁ c₁ inner₁ inLoop Γ₁)
    (h₂ : Inside f₂ c₂ inner₂ inLoop Γ₂)
    (accepted : checkStatements c₁ ss = (.ok (), ss₁, c₁')) :
    ∃ ss₂ c₂', checkStatements c₂ ss = (.ok (), ss₂, c₂') := by
  induction ss generalizing c₁ c₂ ss₁ with
  | nil => exact ⟨[], c₂, checkStatements_nil.mpr ⟨rfl, rfl⟩⟩
  | cons s rest ih =>
    obtain ⟨s₁, d₁, rest₁, hs, hrest, -⟩ := checkStatements_cons.mp accepted
    obtain ⟨s₂, d₂, hs₂⟩ := each s List.mem_cons_self h₁ h₂ hs
    have hkind := kind_ne_of_checkStatementIn h₁ (by simp)
      (fun hnil => nested hnil s List.mem_cons_self) hs
    have hframe₁ := checkStatementIn_frame h₁ (by simp) (fun _ => hkind) hs
    have hframe₂ := checkStatementIn_frame h₂ (by simp) (fun _ => hkind) hs₂
    obtain ⟨rest₂, e₂, hrest₂⟩ := ih (fun hnil t ht => nested hnil t (List.mem_cons_of_mem _ ht))
      (fun t ht => each t (List.mem_cons_of_mem _ ht)) (h₁.of_frame hframe₁)
      (h₂.of_frame hframe₂) hrest
    exact ⟨_, e₂, checkStatements_cons.mpr ⟨s₂, d₂, rest₂, hs₂, hrest₂, rfl⟩⟩

/-- The block of a statement, in the scope opened for it or in one of its own. -/
theorem Inside.block {f : FunctionScope} {c : Context} {inner : List Nat} {Γ : Names}
    (h : Inside f c inner inLoop Γ) {own : Option ScopeId} (hown : own.isSome → inner ≠ [])
    (loc : Location) :
    ∃ inner', inner' ≠ [] ∧ Inside f (blockContext own c loc).1 inner' inLoop Γ := by
  cases own with
  | some id => exact ⟨inner, hown rfl, h⟩
  | none => exact ⟨_, List.cons_ne_nil _ _, (h.enter (.inl rfl) loc).2⟩

theorem checkStatementIn_alike (same : Γ₁.Alike Γ₂) (sameResult : f₁.result = f₂.result)
    {n : Node} :
    ∀ {own₁ own₂ : Option ScopeId} {c₁ c₂ c₁' : Context} {n₁ : Node} {inner₁ inner₂ : List Nat}
      {inLoop : Bool}, Inside f₁ c₁ inner₁ inLoop Γ₁ → Inside f₂ c₂ inner₂ inLoop Γ₂ →
      (own₁.isSome → inner₁ ≠ []) → (own₂.isSome → inner₂ ≠ []) →
      (inner₁ = [] → n.kind ≠ .variableDeclaration) →
      checkStatementIn own₁ c₁ n = (.ok (), n₁, c₁') →
      ∃ n₂ c₂', checkStatementIn own₂ c₂ n = (.ok (), n₂, c₂') := by
  -- the open scopes may differ in number and tags; only whether a loop is open counts
  induction n using Node.induction with
  | step n ih =>
    intro own₁ own₂ c₁ c₂ c₁' n₁ inner₁ inner₂ inLoop h₁ h₂ hown₁ hown₂ hkind accepted
    have child : ∀ {m : Node}, m ∈ n.children → m ∈ n.descendants := Node.mem_descendants_of_child
    cases checkStatementIn_ok_iff.mp accepted with
    | @block _ loc ch ch₁ c₁' acceptedAll =>
      obtain ⟨deeper₁, hne₁, hin₁⟩ := h₁.block hown₁ loc
      obtain ⟨deeper₂, hne₂, hin₂⟩ := h₂.block hown₂ loc
      obtain ⟨ch₂, c₂', hch⟩ := checkStatements_alike (fun hnil => absurd hnil hne₁)
        (fun s hs _ _ _ _ g₁ g₂ => ih s (child hs) g₁ g₂ (by simp) (by simp)
          fun hnil => absurd hnil hne₁) hin₁ hin₂ acceptedAll
      exact ⟨_, _, checkStatementIn_ok_iff.mpr (.block hch)⟩
    | declaration isType isTop inFunction fresh =>
      obtain ⟨hnil, -⟩ := h₁.top_variant isTop inFunction
      exact absurd rfl (hkind hnil)
    | expression acceptedExpr =>
      obtain ⟨e₂, he⟩ := checkExpression_alike h₁ h₂ same acceptedExpr
      exact ⟨_, _, checkStatementIn_ok_iff.mpr (.expression he)⟩
    | call isCall acceptedCall =>
      obtain ⟨n₂, hn⟩ := checkExpression_alike h₁ h₂ same acceptedCall
      exact ⟨_, _, checkStatementIn_ok_iff.mpr (.call isCall hn)⟩
    | null => exact ⟨_, _, checkStatementIn_ok_iff.mpr .null⟩
    | @ifThen _ _ _ _ _ arm _ _ _ isInside acceptedCond acceptedArm =>
      subst isInside
      obtain ⟨cond₂, hcond⟩ := checkExpression_alike h₁ h₂ same acceptedCond
      obtain ⟨arm₂, c₂', harm⟩ := ih arm (child (by simp)) (h₁.enter (.inl rfl) arm.loc).2
        (h₂.enter (.inl rfl) arm.loc).2 (by simp) (by simp) (by simp) acceptedArm
      exact ⟨_, _, checkStatementIn_ok_iff.mpr (.ifThen rfl hcond harm)⟩
    | @ifElse _ _ _ _ _ arm _ other _ _ _ d₁ _ isInside isInside' acceptedCond acceptedArm
        acceptedOther =>
      have hframe₁ := frame_of_scoped checkStatementIn_frame h₁ (.inl rfl) isInside acceptedArm
      subst isInside isInside'
      obtain ⟨cond₂, hcond⟩ := checkExpression_alike h₁ h₂ same acceptedCond
      obtain ⟨arm₂, d₂, harm⟩ := ih arm (child (by simp)) (h₁.enter (.inl rfl) arm.loc).2
        (h₂.enter (.inl rfl) arm.loc).2 (by simp) (by simp) (by simp) acceptedArm
      have hframe₂ := frame_of_scoped checkStatementIn_frame h₂ (.inl rfl) rfl harm
      obtain ⟨other₂, c₂', hother⟩ := ih other (child (by simp))
        ((h₁.of_frame hframe₁).enter (.inl rfl) other.loc).2
        ((h₂.of_frame hframe₂).enter (.inl rfl) other.loc).2 (by simp) (by simp) (by simp)
        acceptedOther
      exact ⟨_, _, checkStatementIn_ok_iff.mpr (.ifElse rfl rfl hcond harm hother)⟩
    | @«while» _ _ _ _ _ body _ _ _ isInside acceptedCond acceptedBody =>
      subst isInside
      obtain ⟨cond₂, hcond⟩ := checkExpression_alike h₁ h₂ same acceptedCond
      obtain ⟨body₂, c₂', hbody⟩ := ih body (child (by simp)) (h₁.enter (.inr rfl) body.loc).2
        (h₂.enter (.inr rfl) body.loc).2 (by simp) (by simp) (by simp) acceptedBody
      exact ⟨_, _, checkStatementIn_ok_iff.mpr (.while rfl hcond hbody)⟩
    | returnNothing inFunction isVoid =>
      obtain rfl := Option.some.inj (h₁.nearest_function.symm.trans inFunction)
      have hvoid : (c₂.scopes.get (.opened f₂.number)).result = .void := by
        rw [h₁.get_function] at isVoid
        rw [h₂.get_function]
        exact sameResult.symm.trans isVoid
      exact ⟨_, _, checkStatementIn_ok_iff.mpr (.returnNothing h₂.nearest_function hvoid)⟩
    | returnValue inFunction hasResult acceptedValue =>
      obtain rfl := Option.some.inj (h₁.nearest_function.symm.trans inFunction)
      have hresult : (c₁.scopes.get (.opened f₁.number)).result
          = (c₂.scopes.get (.opened f₂.number)).result := by
        rw [h₁.get_function, h₂.get_function]
        exact sameResult
      obtain ⟨value₂, hvalue⟩ := checkExpression_alike h₁ h₂ same acceptedValue
      rw [hresult] at hasResult hvalue
      exact ⟨_, _, checkStatementIn_ok_iff.mpr
        (.returnValue h₂.nearest_function hasResult hvalue)⟩
    | «break» isLoop =>
      have hloop : (c₂.nearest? .loop).isSome = true := by
        rw [h₂.nearest_loop_isSome, ← h₁.nearest_loop_isSome, isLoop]
        rfl
      obtain ⟨loop, hloop⟩ := Option.isSome_iff_exists.mp hloop
      exact ⟨_, _, checkStatementIn_ok_iff.mpr (.break hloop)⟩

/-! ## Functions -/

theorem checkParameters_alike {ps ps₁ : List Node} (same : Γ₁.Alike Γ₂)
    (h₁ : Inside f₁ c₁ [] false Γ₁) (h₂ : Inside f₂ c₂ [] false Γ₂)
    (accepted : checkParameters (.opened f₁.number) c₁ ps = (.ok (), ps₁, c₁')) :
    ∃ ps₂ c₂', checkParameters (.opened f₂.number) c₂ ps = (.ok (), ps₂, c₂') := by
  induction ps generalizing c₁ c₂ Γ₁ Γ₂ ps₁ with
  | nil => exact ⟨[], c₂, checkParameters_nil.mpr ⟨rfl, rfl⟩⟩
  | cons p rest ih =>
    obtain ⟨p₁, d₁, rest₁, hp, hrest, -⟩ := checkParameters_cons.mp accepted
    obtain ⟨t, id, ty, hkind, hch, isType, isId, hnote, fresh, rfl, -⟩ :=
      checkParameter_ok_iff.mp hp
    rw [h₁.binds_eq_false_iff, same.locals, ← h₂.binds_eq_false_iff] at fresh
    obtain ⟨rest₂, c₂', hrest₂⟩ :=
      ih (same.declare id.attr ty) (h₁.bind id.attr ty) (h₂.bind id.attr ty) hrest
    exact ⟨_, c₂', checkParameters_cons.mpr ⟨_, _, rest₂, checkParameter_ok_iff.mpr
      ⟨t, id, ty, hkind, hch, isType, isId, hnote, fresh, rfl, rfl⟩, hrest₂, rfl⟩⟩

theorem checkBody_alike {ss ss₁ : List Node} (same : Γ₁.Alike Γ₂)
    (sameResult : f₁.result = f₂.result) (h₁ : Inside f₁ c₁ [] false Γ₁)
    (h₂ : Inside f₂ c₂ [] false Γ₂) (accepted : checkStatements c₁ ss = (.ok (), ss₁, c₁')) :
    ∃ ss₂ c₂', checkStatements c₂ ss = (.ok (), ss₂, c₂') := by
  induction ss generalizing c₁ c₂ Γ₁ Γ₂ ss₁ with
  | nil => exact ⟨[], c₂, checkStatements_nil.mpr ⟨rfl, rfl⟩⟩
  | cons s rest ih =>
    obtain ⟨s₁, d₁, rest₁, hs, hrest, -⟩ := checkStatements_cons.mp accepted
    by_cases isDeclaration : s.kind = .variableDeclaration
    · cases checkStatementIn_ok_iff.mp hs with
      | @declaration _ _ _ t name _ _ ty top isType isTop inFunction fresh =>
        obtain ⟨-, rfl⟩ := h₁.top_variant isTop inFunction
        rw [h₁.binds_eq_false_iff, same.locals, ← h₂.binds_eq_false_iff] at fresh
        have inFunction₂ : (c₂.scopes.get (.opened f₂.number)).variant = .function := by
          rw [h₂.get_function]
          rfl
        obtain ⟨rest₂, c₂', hrest₂⟩ :=
          ih (same.declare name ty) (h₁.bind name ty) (h₂.bind name ty) hrest
        exact ⟨_, c₂', checkStatements_cons.mpr ⟨_, _, rest₂, checkStatementIn_ok_iff.mpr
          (.declaration isType h₂.top_function inFunction₂ fresh), hrest₂, rfl⟩⟩
      | call isCall _ =>
        rw [isCall] at isDeclaration
        cases isDeclaration
      | _ => simp at isDeclaration
    · obtain ⟨s₂, d₂, hs₂⟩ : ∃ s₂ d₂, checkStatementIn none c₂ s = (.ok (), s₂, d₂) :=
        checkStatementIn_alike same sameResult h₁ h₂ (by simp) (by simp) (fun _ => isDeclaration) hs
      have hframe₁ := checkStatementIn_frame h₁ (by simp) (fun _ => isDeclaration) hs
      have hframe₂ := checkStatementIn_frame h₂ (by simp) (fun _ => isDeclaration) hs₂
      obtain ⟨rest₂, c₂', hrest₂⟩ :=
        ih same (h₁.of_frame hframe₁) (h₂.of_frame hframe₂) hrest
      exact ⟨_, c₂', checkStatements_cons.mpr ⟨s₂, d₂, rest₂, hs₂, hrest₂, rfl⟩⟩

/-- A function that is accepted among some global names is accepted wherever these names
stand for the same. -/
theorem checkFunction_alike (h₁ : Between c₁) (h₂ : Between c₂)
    (same : c₁.names.Alike c₂.names) {fn fn₁ : Node}
    (accepted : checkFunction c₁ fn = (.ok (), fn₁, c₁')) :
    ∃ fn₂ c₂', checkFunction c₂ fn = (.ok (), fn₂, c₂') := by
  cases checkFunction_ok_iff.mp accepted with
  | @intro _ _ loc _ _ _ _ _ _ _ _ _ _ _ _ result _ d₁ _ isInside isResult acceptedParams
      acceptedBody =>
    subst isInside
    have hin₁ := h₁.enter loc result
    have hin₂ := h₂.enter loc result
    obtain ⟨ps₂, d₂, hps⟩ := checkParameters_alike same hin₁ hin₂ acceptedParams
    obtain ⟨params, -, hbinds, -, -, hrun₁, -⟩ :=
      checkParameters_run hin₁ (by simp [Context.names]) acceptedParams
    obtain ⟨params', -, hbinds', -, -, hrun₂, -⟩ :=
      checkParameters_run hin₂ (by simp [Context.names]) hps
    obtain rfl : params = params' := Option.some.inj (hbinds.symm.trans hbinds')
    have sameResult : (c₁.nextFunction loc result).result = (c₂.nextFunction loc result).result :=
      rfl
    obtain ⟨ss₂, c₂', hss⟩ :=
      checkBody_alike (same.declareAll params) sameResult hrun₁ hrun₂ acceptedBody
    exact ⟨_, _, checkFunction_ok_iff.mpr (.intro rfl isResult hps hss)⟩

/-! ## Exits -/

theorem exitOfAll_congr {scopes₁ scopes₂ : Scopes} {ss : List Node}
    (each : ∀ n ∈ ss, exitOf scopes₁ n = exitOf scopes₂ n) :
    exitOfAll scopes₁ ss = exitOfAll scopes₂ ss := by
  induction ss with
  | nil => rfl
  | cons n rest ih =>
    rw [exitOfAll, exitOfAll, each n List.mem_cons_self,
      ih fun m hm => each m (List.mem_cons_of_mem _ hm)]

/-- The scopes decide which calls halt, and nothing else about exits. -/
theorem exitOf_congr {scopes₁ scopes₂ : Scopes} (same : halts scopes₁ = halts scopes₂)
    (n : Node) : exitOf scopes₁ n = exitOf scopes₂ n := by
  induction n using Node.induction with
  | step n ih =>
    rcases n with ⟨kind, attr, loc, note, children⟩
    have child : ∀ {m : Node}, m ∈ children → exitOf scopes₁ m = exitOf scopes₂ m :=
      fun hm => ih _ (Node.mem_descendants_of_child hm)
    cases kind with
    | block =>
      rw [exitOf, exitOf]
      exact exitOfAll_congr fun m hm => child hm
    | ifElse =>
      rcases children with _ | ⟨cond, _ | ⟨arm₁, _ | ⟨arm₂, _⟩⟩⟩
      · simp [exitOf]
      · simp [exitOf]
      · rw [exitOf, exitOf, child (m := arm₁) (by simp)]
      · rw [exitOf, exitOf, child (m := arm₁) (by simp), child (m := arm₂) (by simp)]
    | functionInvocation =>
      cases children with
      | nil => rw [exitOf, exitOf]
      | cons callee _ => rw [exitOf, exitOf, same]
    | _ => simp [exitOf]

theorem checkReturns_congr {scopes₁ scopes₂ : Scopes} (same : halts scopes₁ = halts scopes₂)
    (decl : Node) : checkReturns scopes₁ decl = checkReturns scopes₂ decl := by
  have hexit : exitOf scopes₁ = exitOf scopes₂ := funext (exitOf_congr same)
  unfold checkReturns
  rw [hexit]

end Check

end TreeWat
