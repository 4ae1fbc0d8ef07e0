import TreeWat.Proofs.Typing
set_option autoImplicit false

/-!
# Check: the checker enforces exactly the rules

The checker walks a function with a stack of scopes that it fills on the way; the
rules of `Typing` are stated on the names at each point.  Expressions and statements
are compared in both directions inside any context that `Inside` ties to the names,
and functions in a context between two functions.
-/

namespace TreeWat.Check

variable {f : FunctionScope} {c c' : Context} {inner : List Nat} {inLoop : Bool} {Γ : Names}

/-! ## Expressions -/

/-- The rule of each operator, read off its table. -/
theorem hasType_binary {op : BinaryOp} {attr : Bytes} {loc : Location}
    {note : Option Annotation} {l r : Node} {left right ty : Ty}
    (target : op = .assign → l.kind = .id) (hl : HasType Γ l left) (hr : HasType Γ r right)
    (rule : op.typing left right = .ok ty) :
    HasType Γ ⟨.binary op, attr, loc, note, [l, r]⟩ ty := by
  cases op with
  | assign =>
    simp only [BinaryOp.typing] at rule
    split at rule
    · simp at rule
    · rename_i hne
      simp only [ne_eq, Decidable.not_not] at hne
      cases rule
      exact .assignment (target rfl) hl (hne ▸ hr)
  | eq | ne =>
    simp only [BinaryOp.typing] at rule
    split at rule
    · simp at rule
    · split at rule
      · simp at rule
      · rename_i hvalue hne
        simp only [ne_eq, Decidable.not_not] at hne
        cases rule
        refine .equality (by simp) ?_ hl (hne ▸ hr)
        cases left <;> simp_all [Ty.hasValue]
  | add | sub | mul | div | mod =>
    obtain ⟨rfl, rfl, rfl⟩ := BinaryOp.uniform_ok rule
    exact .arithmetic (by simp) hl hr
  | lt | gt | le | ge =>
    obtain ⟨rfl, rfl, rfl⟩ := BinaryOp.uniform_ok rule
    exact .comparison (by simp) hl hr
  | and | or =>
    obtain ⟨rfl, rfl, rfl⟩ := BinaryOp.uniform_ok rule
    exact .logical (by simp) hl hr

theorem hasType_of_checkExpressions {args : List Node}
    (each : ∀ a ∈ args, ∀ {ty : Ty} {a' : Node}, checkExpression c a = (.ok ty, a') →
      HasType Γ a ty)
    {tys : List Ty} {args' : List Node} (accepted : checkExpressions c args = (.ok tys, args')) :
    ∀ p ∈ args.zip tys, HasType Γ p.1 p.2 := by
  induction args generalizing tys args' with
  | nil => simp
  | cons a rest ih =>
    obtain ⟨ty, a', tys', rest', ha, hrest, rfl, rfl⟩ := checkExpressions_cons.mp accepted
    intro p hp
    rw [List.zip_cons_cons] at hp
    rcases List.mem_cons.mp hp with rfl | hp
    · exact each a List.mem_cons_self ha
    · exact ih (fun a ha => each a (List.mem_cons_of_mem _ ha)) hrest p hp

/-- Whatever the context finds, the names know as well. -/
structure Knows (Γ : Names) (c : Context) : Prop where
  var {name : Bytes} {loc : Location} {owner : ScopeId} {ty : Ty}
    (found : c.lookup name loc = .ok (owner, ty)) : Γ.var? name = some ty
  func {name : Bytes} {loc : Location} {owner : ScopeId} {sig : Signature}
    (resolved : c.scopes.resolveCall name loc = .ok (owner, sig)) : Γ.func? name = some sig

theorem Inside.knows (h : Inside f c inner inLoop Γ) : Knows Γ c where
  var found := (h.lookup_ok_iff.mp found).1
  func resolved := (h.resolveCall_ok_iff.mp resolved).1

/-- An accepted expression has the type the checker gives it. -/
theorem Knows.hasType (h : Knows Γ c) {n : Node} :
    ∀ {ty : Ty} {n' : Node}, checkExpression c n = (.ok ty, n') → HasType Γ n ty := by
  induction n using Node.induction with
  | step n ih =>
    intro ty n' accepted
    cases checkExpression_ok_iff.mp accepted with
    | id found => exact .name (h.var found)
    | @literal kind _ _ _ _ isLiteral =>
      cases kind <;> simp only [Kind.literalType?, reduceCtorEq, Option.some.injEq] at isLiteral
      all_goals subst isLiteral
      · exact .number
      · exact .string
      · exact .trueLiteral
      · exact .falseLiteral
    | @call _ _ _ _ _ _ _ _ args _ _ sig resolved acceptedArgs =>
      have each : ∀ a ∈ args, ∀ {ty : Ty} {a' : Node},
          checkExpression c a = (.ok ty, a') → HasType Γ a ty := fun a ha =>
        ih a (Node.mem_descendants_of_argument ha)
      exact .call (h.func resolved) (checkExpressions_length acceptedArgs).symm
        (hasType_of_checkExpressions each acceptedArgs)
    | @binary _ _ _ l r _ _ _ _ _ target acceptedLeft acceptedRight rule =>
      exact hasType_binary target (ih l (Node.mem_descendants_of_child (by simp)) acceptedLeft)
        (ih r (Node.mem_descendants_of_child (by simp)) acceptedRight) rule
    | @unary op _ _ e _ acceptedOperand =>
      have operand := ih e (Node.mem_descendants_of_child (by simp)) acceptedOperand
      cases op with
      | neg => exact .negation operand
      | not => exact .complement operand

/-- Inside a function, an accepted expression has the type the checker gives it. -/
theorem hasType_of_checkExpression (h : Inside f c inner inLoop Γ) {n n' : Node} {ty : Ty}
    (accepted : checkExpression c n = (.ok ty, n')) : HasType Γ n ty :=
  h.knows.hasType accepted

theorem checkExpressions_of_hasType {args : List Node} {tys : List Ty}
    (count : args.length = tys.length)
    (each : ∀ p ∈ args.zip tys, ∃ a', checkExpression c p.1 = (.ok p.2, a')) :
    ∃ args', checkExpressions c args = (.ok tys, args') := by
  induction args generalizing tys with
  | nil =>
    have : tys = [] := List.length_eq_zero_iff.mp count.symm
    exact ⟨[], checkExpressions_nil.mpr ⟨this, rfl⟩⟩
  | cons a rest ih =>
    cases tys with
    | nil => simp at count
    | cons ty tys =>
      obtain ⟨a', ha⟩ := each (a, ty) (by simp)
      obtain ⟨rest', hrest⟩ := ih (by simpa using count) fun p hp => each p (by simp [hp])
      exact ⟨a' :: rest', checkExpressions_cons.mpr ⟨ty, a', tys, rest', ha, hrest, rfl, rfl⟩⟩

/-- A binary expression without a note is accepted if its operands are and the rule of
its operator allows their types. -/
theorem checkExpression_binary {op : BinaryOp} {attr : Bytes} {loc : Location}
    {note : Option Annotation} {l r : Node} {left right ty : Ty}
    (plain : (⟨.binary op, attr, loc, note, [l, r]⟩ : Node).Unannotated)
    (hl : l.Unannotated → ∃ l', checkExpression c l = (.ok left, l'))
    (hr : r.Unannotated → ∃ r', checkExpression c r = (.ok right, r'))
    (target : op = .assign → l.kind = .id) (rule : op.typing left right = .ok ty) :
    ∃ n', checkExpression c ⟨.binary op, attr, loc, note, [l, r]⟩ = (.ok ty, n') := by
  obtain rfl : note = none := plain.note
  obtain ⟨l', hl⟩ := hl (plain.child (by simp))
  obtain ⟨r', hr⟩ := hr (plain.child (by simp))
  exact ⟨_, checkExpression_ok_iff.mpr (.binary target hl hr rule)⟩

/-- A typed expression without notes is accepted. -/
theorem checkExpression_of_hasType (h : Inside f c inner inLoop Γ) {n : Node} {ty : Ty}
    (typed : HasType Γ n ty) (plain : n.Unannotated) :
    ∃ n', checkExpression c n = (.ok ty, n') := by
  induction typed with
  | @name _ _ note _ _ declared =>
    obtain rfl : note = none := plain.note
    exact ⟨_, checkExpression_ok_iff.mpr (.id (h.lookup_ok_iff.mpr ⟨declared, rfl⟩))⟩
  | @number _ _ note _ =>
    obtain rfl : note = none := plain.note
    exact ⟨_, checkExpression_ok_iff.mpr (.literal rfl)⟩
  | @trueLiteral _ _ note _ =>
    obtain rfl : note = none := plain.note
    exact ⟨_, checkExpression_ok_iff.mpr (.literal rfl)⟩
  | @falseLiteral _ _ note _ =>
    obtain rfl : note = none := plain.note
    exact ⟨_, checkExpression_ok_iff.mpr (.literal rfl)⟩
  | @string _ _ note _ =>
    obtain rfl : note = none := plain.note
    exact ⟨_, checkExpression_ok_iff.mpr (.literal rfl)⟩
  | assignment target _ _ ihl ihr =>
    exact checkExpression_binary plain ihl ihr (fun _ => target) (by simp [BinaryOp.typing])
  | @equality op _ _ _ _ _ ty isEquality hasValue _ _ ihl ihr =>
    refine checkExpression_binary plain ihl ihr ?_ ?_
    · rintro rfl
      simp at isEquality
    · have hvalue : ty.hasValue = true := by rcases hasValue with rfl | rfl <;> rfl
      rcases isEquality with rfl | rfl <;> simp [BinaryOp.typing, hvalue]
  | @arithmetic op _ _ _ _ _ isArithmetic _ _ ihl ihr =>
    refine checkExpression_binary plain ihl ihr ?_ ?_
    · rintro rfl
      simp at isArithmetic
    · cases op <;> simp [BinaryOp.typing, BinaryOp.uniform] at isArithmetic ⊢
  | @comparison op _ _ _ _ _ isComparison _ _ ihl ihr =>
    refine checkExpression_binary plain ihl ihr ?_ ?_
    · rintro rfl
      simp at isComparison
    · cases op <;> simp [BinaryOp.typing, BinaryOp.uniform] at isComparison ⊢
  | @logical op _ _ _ _ _ isLogical _ _ ihl ihr =>
    refine checkExpression_binary plain ihl ihr ?_ ?_
    · rintro rfl
      simp at isLogical
    · rcases isLogical with rfl | rfl <;> simp [BinaryOp.typing, BinaryOp.uniform]
  | @negation _ _ note _ _ ih =>
    obtain rfl : note = none := plain.note
    obtain ⟨e', he⟩ := ih (plain.child (by simp))
    exact ⟨_, checkExpression_ok_iff.mpr (.unary he)⟩
  | @complement _ _ note _ _ ih =>
    obtain rfl : note = none := plain.note
    obtain ⟨e', he⟩ := ih (plain.child (by simp))
    exact ⟨_, checkExpression_ok_iff.mpr (.unary he)⟩
  | @call _ _ note _ _ nameNote _ _ _ _ args sig resolved count _ ih =>
    obtain rfl : note = none := plain.note
    obtain rfl : nameNote = none := (plain.child List.mem_cons_self).note
    have hlist := plain.child (List.mem_cons_of_mem _ List.mem_cons_self)
    obtain ⟨args', hargs⟩ := checkExpressions_of_hasType (c := c) count fun p hp =>
      ih p hp (hlist.child (List.of_mem_zip hp).1)
    exact ⟨_, checkExpression_ok_iff.mpr (.call (h.resolveCall_ok_iff.mpr ⟨resolved, rfl⟩) hargs)⟩

/-! ## Statements -/

theorem obeys_of_checkStatements {result : Ty} {ss : List Node}
    (nested : inner = [] → ∀ s ∈ ss, s.kind ≠ .variableDeclaration)
    (each : ∀ s ∈ ss, ∀ {c c' : Context} {s' : Node}, Inside f c inner inLoop Γ →
      checkStatementIn none c s = (.ok (), s', c') → Obeys Γ result inLoop s)
    {c c' : Context} {ss' : List Node} (h : Inside f c inner inLoop Γ)
    (accepted : checkStatements c ss = (.ok (), ss', c')) :
    ∀ s ∈ ss, Obeys Γ result inLoop s := by
  induction ss generalizing c ss' with
  | nil => simp
  | cons s rest ih =>
    obtain ⟨s', c₁, rest', hs, hrest, rfl⟩ := checkStatements_cons.mp accepted
    have hframe := checkStatementIn_frame h (by simp)
      (fun hnil => nested hnil s List.mem_cons_self) hs
    have hall := ih (fun hnil s hs => nested hnil s (List.mem_cons_of_mem _ hs))
      (fun s hs => each s (List.mem_cons_of_mem _ hs)) (h.of_frame hframe) hrest
    intro t ht
    rcases List.mem_cons.mp ht with rfl | ht
    · exact each t List.mem_cons_self h hs
    · exact hall t ht

/-- An accepted statement keeps the rules. -/
theorem obeys_of_checkStatementIn {n : Node} :
    ∀ {own : Option ScopeId} {c c' : Context} {n' : Node} {inner : List Nat} {inLoop : Bool},
      Inside f c inner inLoop Γ → (own.isSome → inner ≠ []) →
      (inner = [] → n.kind ≠ .variableDeclaration) →
      checkStatementIn own c n = (.ok (), n', c') → Obeys Γ f.result inLoop n := by
  induction n using Node.induction with
  | step n ih =>
    intro own c c' n' inner inLoop h hown hkind accepted
    have child : ∀ {m : Node}, m ∈ n.children → m ∈ n.descendants := Node.mem_descendants_of_child
    cases checkStatementIn_ok_iff.mp accepted with
    | @block _ loc ch ch' c' acceptedAll =>
      cases own with
      | some id =>
        have hne : inner ≠ [] := hown rfl
        exact .block (obeys_of_checkStatements (fun hnil => absurd hnil hne)
          (fun s hs _ _ _ hc => ih s (child hs) hc (by simp) fun hnil => absurd hnil hne)
          h acceptedAll)
      | none =>
        obtain ⟨-, hin⟩ := h.enter (.inl rfl) loc
        exact .block (obeys_of_checkStatements (by simp)
          (fun s hs _ _ _ hc => ih s (child hs) hc (by simp) (by simp)) hin acceptedAll)
    | declaration isType isTop inFunction fresh =>
      obtain ⟨hnil, -⟩ := h.top_variant isTop inFunction
      exact absurd rfl (hkind hnil)
    | expression acceptedExpr => exact .expression (hasType_of_checkExpression h acceptedExpr)
    | call isCall acceptedCall => exact .call isCall (hasType_of_checkExpression h acceptedCall)
    | null => exact .null
    | @ifThen _ _ _ _ _ arm _ _ _ isInside acceptedCond acceptedArm =>
      subst isInside
      obtain ⟨-, hin⟩ := h.enter (.inl rfl) arm.loc
      exact .ifThen (hasType_of_checkExpression h acceptedCond)
        (ih arm (child (by simp)) hin (by simp) (by simp) acceptedArm)
    | @ifElse _ _ _ _ _ arm₁ _ arm₂ _ _ _ c₁ _ isInside₁ isInside₂ acceptedCond accepted₁
        accepted₂ =>
      have hframe := frame_of_scoped checkStatementIn_frame h (.inl rfl) isInside₁ accepted₁
      subst isInside₁ isInside₂
      obtain ⟨-, hin₁⟩ := h.enter (.inl rfl) arm₁.loc
      obtain ⟨-, hin₂⟩ := (h.of_frame hframe).enter (.inl rfl) arm₂.loc
      exact .ifElse (hasType_of_checkExpression h acceptedCond)
        (ih arm₁ (child (by simp)) hin₁ (by simp) (by simp) accepted₁)
        (ih arm₂ (child (by simp)) hin₂ (by simp) (by simp) accepted₂)
    | @«while» _ _ _ _ _ body _ _ _ isInside acceptedCond acceptedBody =>
      subst isInside
      obtain ⟨-, hin⟩ := h.enter (.inr rfl) body.loc
      exact .while (hasType_of_checkExpression h acceptedCond)
        (ih body (child (by simp)) hin (by simp) (by simp) acceptedBody)
    | returnNothing inFunction isVoid =>
      obtain rfl := Option.some.inj (h.nearest_function.symm.trans inFunction)
      rw [h.get_function] at isVoid
      exact .returnNothing isVoid
    | returnValue inFunction hasResult acceptedValue =>
      obtain rfl := Option.some.inj (h.nearest_function.symm.trans inFunction)
      rw [h.get_function] at hasResult acceptedValue
      exact .returnValue hasResult (hasType_of_checkExpression h acceptedValue)
    | «break» isLoop =>
      have hloop := h.nearest_loop_isSome
      rw [isLoop] at hloop
      obtain rfl : true = inLoop := hloop
      exact .break

/-- A declaration keeps the rules only as a direct statement of the outermost block. -/
theorem kind_ne_of_obeys {result : Ty} {n : Node} (obeys : Obeys Γ result inLoop n) :
    n.kind ≠ .variableDeclaration := by
  cases obeys with
  | call isCall _ =>
    rw [isCall]
    decide
  | _ => simp

theorem checkStatements_of_obeys {result : Ty} {ss : List Node}
    (obeys : ∀ s ∈ ss, Obeys Γ result inLoop s)
    (each : ∀ s ∈ ss, ∀ {c : Context}, Inside f c inner inLoop Γ →
      ∃ s' c', checkStatementIn none c s = (.ok (), s', c'))
    {c : Context} (h : Inside f c inner inLoop Γ) :
    ∃ ss' c', checkStatements c ss = (.ok (), ss', c') := by
  induction ss generalizing c with
  | nil => exact ⟨[], c, checkStatements_nil.mpr ⟨rfl, rfl⟩⟩
  | cons s rest ih =>
    obtain ⟨s', c₁, hs⟩ := each s List.mem_cons_self h
    have hframe := checkStatementIn_frame h (by simp)
      (fun _ => kind_ne_of_obeys (obeys s List.mem_cons_self)) hs
    obtain ⟨rest', c₂, hrest⟩ := ih (fun s hs => obeys s (List.mem_cons_of_mem _ hs))
      (fun s hs => each s (List.mem_cons_of_mem _ hs)) (h.of_frame hframe)
    exact ⟨s' :: rest', c₂, checkStatements_cons.mpr ⟨s', c₁, rest', hs, hrest, rfl⟩⟩

/-- A statement without notes that keeps the rules is accepted. -/
theorem checkStatementIn_of_obeys {result : Ty} {n : Node}
    (obeys : Obeys Γ result inLoop n) :
    ∀ {own : Option ScopeId} {c : Context} {inner : List Nat}, f.result = result →
      n.Unannotated → Inside f c inner inLoop Γ →
      ∃ n' c', checkStatementIn own c n = (.ok (), n', c') := by
  induction obeys with
  | @block inLoop _ loc note ch statements ih =>
    intro own c inner hresult plain h
    obtain rfl : note = none := plain.note
    have each : ∀ s ∈ ch, ∀ {c : Context} {inner : List Nat}, Inside f c inner inLoop Γ →
        ∃ s' c', checkStatementIn none c s = (.ok (), s', c') := fun s hs c inner hc =>
      ih s hs hresult (plain.child hs) hc
    cases own with
    | some id =>
      obtain ⟨ch', c', hall⟩ := checkStatements_of_obeys statements (fun s hs c => each s hs) h
      exact ⟨_, _, checkStatementIn_ok_iff.mpr (.block hall)⟩
    | none =>
      obtain ⟨-, hin⟩ := h.enter (.inl rfl) loc
      obtain ⟨ch', c', hall⟩ := checkStatements_of_obeys statements (fun s hs c => each s hs) hin
      exact ⟨_, _, checkStatementIn_ok_iff.mpr (.block hall)⟩
  | expression typed =>
    intro own c inner _ plain h
    obtain ⟨e', he⟩ := checkExpression_of_hasType h typed (plain.child (by simp))
    exact ⟨_, _, checkStatementIn_ok_iff.mpr (.expression he)⟩
  | call isCall typed =>
    intro own c inner _ plain h
    obtain ⟨n', hn⟩ := checkExpression_of_hasType h typed plain
    exact ⟨_, _, checkStatementIn_ok_iff.mpr (.call isCall hn)⟩
  | null =>
    intro own c inner _ plain h
    exact ⟨_, _, checkStatementIn_ok_iff.mpr .null⟩
  | @ifThen inLoop _ _ _ _ arm condition _ ih =>
    intro own c inner hresult plain h
    obtain ⟨cond', hcond⟩ := checkExpression_of_hasType h condition (plain.child (by simp))
    obtain ⟨-, hin⟩ := h.enter (.inl rfl) arm.loc
    obtain ⟨arm', c', harm⟩ := ih hresult (plain.child (by simp)) hin
    exact ⟨_, _, checkStatementIn_ok_iff.mpr (.ifThen rfl hcond harm)⟩
  | @ifElse inLoop _ _ _ _ arm₁ arm₂ condition _ _ ih₁ ih₂ =>
    intro own c inner hresult plain h
    obtain ⟨cond', hcond⟩ := checkExpression_of_hasType h condition (plain.child (by simp))
    obtain ⟨-, hin₁⟩ := h.enter (.inl rfl) arm₁.loc
    obtain ⟨arm₁', c₁, harm₁⟩ := ih₁ hresult (plain.child (by simp)) hin₁
    have hframe := frame_of_scoped checkStatementIn_frame h (.inl rfl) rfl harm₁
    obtain ⟨-, hin₂⟩ := (h.of_frame hframe).enter (.inl rfl) arm₂.loc
    obtain ⟨arm₂', c₂, harm₂⟩ := ih₂ hresult (plain.child (by simp)) hin₂
    exact ⟨_, _, checkStatementIn_ok_iff.mpr (.ifElse rfl rfl hcond harm₁ harm₂)⟩
  | @«while» inLoop _ _ _ _ body condition _ ih =>
    intro own c inner hresult plain h
    obtain ⟨cond', hcond⟩ := checkExpression_of_hasType h condition (plain.child (by simp))
    obtain ⟨-, hin⟩ := h.enter (.inr rfl) body.loc
    obtain ⟨body', c', hbody⟩ := ih hresult (plain.child (by simp)) hin
    exact ⟨_, _, checkStatementIn_ok_iff.mpr (.while rfl hcond hbody)⟩
  | returnNothing isVoid =>
    intro own c inner hresult plain h
    have hvoid : (c.scopes.get (.opened f.number)).result = .void := by
      rw [h.get_function]
      exact hresult.trans isVoid
    exact ⟨_, _, checkStatementIn_ok_iff.mpr (.returnNothing h.nearest_function hvoid)⟩
  | returnValue hasResult typed =>
    intro own c inner hresult plain h
    have hres : (c.scopes.get (.opened f.number)).result = result := by
      rw [h.get_function]
      exact hresult
    obtain ⟨value', hvalue⟩ := checkExpression_of_hasType h typed (plain.child (by simp))
    rw [← hres] at hvalue hasResult
    exact ⟨_, _, checkStatementIn_ok_iff.mpr (.returnValue h.nearest_function hasResult hvalue)⟩
  | @«break» _ _ note =>
    intro own c inner _ plain h
    obtain rfl : note = none := plain.note
    obtain ⟨loop, hloop⟩ := Option.isSome_iff_exists.mp h.nearest_loop_isSome
    exact ⟨_, _, checkStatementIn_ok_iff.mpr (.break hloop)⟩

end TreeWat.Check
