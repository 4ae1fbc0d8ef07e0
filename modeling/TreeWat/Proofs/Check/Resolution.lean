import TreeWat.Proofs.Check.Resolved
set_option autoImplicit false

/-!
# Check: the checker resolves names

While it goes through a function, the checker looks names up on its stack of open scopes, and
it decides at the moment of the check: a use in front of a declaration of the same name in
the function stays with the global variable.  What was decided holds to the end of the run,
since later declarations only add to the scopes (`Final`, `Settled`).

Main statement: a program that passes the checker is resolved, each of its identifiers
carries a note with a scope, and no two local scopes share their tag (`names_resolved`).
-/

namespace TreeWat.Check

/-! ## The scopes at the end of a check -/

/-- The scopes at the end of a check, seen from a point of a function body: they hold the
names at this point, and perhaps more variables of the function. -/
structure Final (scopes : Scopes) (f : FunctionScope) (Γ : Names) : Prop where
  builtins : scopes.builtins = .builtins
  globalVars : scopes.globals.vars = Γ.globals
  globalFuncs : scopes.globals.funcs = Γ.funcs
  own : ∃ more, scopes.opened[f.number]? = some (f.scope (Γ.locals ++ more))

theorem lookup_append_of_some {α : Type} {vs more : List (Bytes × α)} {name : Bytes} {a : α}
    (h : vs.lookup name = some a) : (vs ++ more).lookup name = some a := by
  rw [List.lookup_append, h, Option.some_or]

section Final

variable {scopes : Scopes} {f : FunctionScope} {Γ : Names}

/-- The scope that owns a variable binds it to its type. -/
theorem Final.var (h : Final scopes f Γ) {name : Bytes} {ty : Ty}
    (declared : Γ.var? name = some ty) :
    (scopes.get (f.ownerOf Γ name)).var? name = some ty := by
  obtain ⟨more, hown⟩ := h.own
  unfold Names.var? at declared
  unfold FunctionScope.ownerOf
  cases hlocal : Γ.locals.lookup name with
  | some ty' =>
    rw [hlocal, Option.some_or] at declared
    cases declared
    rw [Option.isSome_some, if_pos rfl, Scopes.get_opened_of_getElem? hown]
    exact lookup_append_of_some hlocal
  | none =>
    rw [hlocal, Option.none_or] at declared
    rw [Option.isSome_none, if_neg (by simp)]
    show scopes.globals.vars.lookup name = _
    rw [h.globalVars, declared]

/-- The scope that owns a function binds it to its signature. -/
theorem Final.func (h : Final scopes f Γ) {name : Bytes} {sig : Signature}
    (resolved : Γ.func? name = some sig) :
    (scopes.get (calleeOwner Γ name)).func? name = some sig := by
  unfold Names.func? at resolved
  unfold calleeOwner
  cases hfunc : Γ.funcs.lookup name with
  | some sig' =>
    rw [hfunc, Option.some_or] at resolved
    cases resolved
    rw [Option.isSome_some, if_pos rfl]
    show scopes.globals.funcs.lookup name = _
    rw [h.globalFuncs, hfunc]
  | none =>
    rw [hfunc, Option.none_or] at resolved
    rw [Option.isSome_none, if_neg (by simp)]
    show scopes.builtins.funcs.lookup name = _
    rw [h.builtins]
    exact resolved

/-- The nested scopes that were opened in a function up to now are as they will be. -/
def Settled (scopes : Scopes) (f : FunctionScope) (c : Context) : Prop :=
  ∀ k, f.number < k → k < c.scopes.opened.length → scopes.opened[k]? = c.scopes.opened[k]?

theorem Settled.of_frame {c c' : Context} (h : Settled scopes f c')
    (hframe : Frame c.scopes.opened.length c c') : Settled scopes f c := by
  intro k later hk
  rw [h k later (Nat.lt_of_lt_of_le hk hframe.length), hframe.opened k hk]

end Final

/-! ## Expressions -/

section Expressions

variable {scopes : Scopes} {f : FunctionScope} {c : Context} {inner : List Nat} {inLoop : Bool}
  {Γ : Names}

theorem checkExpressions_zip {es es' : List Node} {tys : List Ty}
    (accepted : checkExpressions c es = (.ok tys, es')) :
    es'.length = es.length ∧ ∀ p ∈ es.zip es', ∃ ty, checkExpression c p.1 = (.ok ty, p.2) := by
  induction es generalizing es' tys with
  | nil =>
    obtain ⟨-, rfl⟩ := checkExpressions_nil.mp accepted
    simp
  | cons e rest ih =>
    obtain ⟨ty, e', tys', rest', he, hrest, -, rfl⟩ := checkExpressions_cons.mp accepted
    obtain ⟨hlength, hall⟩ := ih hrest
    refine ⟨by rw [List.length_cons, List.length_cons, hlength], ?_⟩
    rw [List.zip_cons_cons]
    exact List.forall_mem_cons.mpr ⟨⟨ty, he⟩, hall⟩

theorem exprResolved_of_checkExpression (h : Inside f c inner inLoop Γ) (final : Final scopes f Γ)
    {n : Node} :
    ∀ {ty : Ty} {n' : Node}, checkExpression c n = (.ok ty, n') → ExprResolved scopes f Γ n n' := by
  induction n using Node.induction with
  | step n ih =>
    intro ty n' accepted
    have typed := hasType_of_checkExpression h accepted
    cases checkExpression_ok_iff.mp accepted with
    | id found =>
      obtain ⟨declared, rfl⟩ := h.lookup_ok_iff.mp found
      exact .name declared (final.var declared)
    | literal isLiteral => exact .literal isLiteral
    | call resolved acceptedArgs =>
      obtain ⟨hsig, rfl⟩ := h.resolveCall_ok_iff.mp resolved
      obtain ⟨count, hargs⟩ := checkExpressions_zip acceptedArgs
      refine .call hsig (final.func hsig) typed count fun p hp => ?_
      obtain ⟨ty, haccepted⟩ := hargs p hp
      exact ih p.1 (Node.mem_descendants_of_argument (List.of_mem_zip hp).1) haccepted
    | @binary _ _ _ l r l' r' _ _ _ _ acceptedLeft acceptedRight _ =>
      refine .operation rfl typed rfl ?_
      have hleft := ih l (Node.mem_descendants_of_child (by simp)) acceptedLeft
      have hright := ih r (Node.mem_descendants_of_child (by simp)) acceptedRight
      simpa using ⟨hleft, hright⟩
    | @unary _ _ _ e _ acceptedOperand =>
      refine .operation rfl typed rfl ?_
      have hoperand := ih e (Node.mem_descendants_of_child (by simp)) acceptedOperand
      simpa using hoperand

end Expressions

/-! ## Open loops -/

/-- The loop scopes that are open, innermost first. -/
def Context.openLoops (c : Context) : List ScopeId :=
  c.stack.filter fun id => (c.scopes.get id).variant = .loop

section OpenLoops

variable {f : FunctionScope} {c c' : Context} {inner : List Nat} {inLoop : Bool} {Γ : Names}

/-- Scopes in which nothing that was there has changed. -/
theorem Inside.get_congr (h : Inside f c inner inLoop Γ) {scopes : Scopes}
    (builtins : scopes.builtins = c.scopes.builtins) (globals : scopes.globals = c.scopes.globals)
    (opened : ∀ k < c.scopes.opened.length, scopes.opened[k]? = c.scopes.opened[k]?) :
    ∀ id ∈ c.stack, scopes.get id = c.scopes.get id := by
  have hopened : ∀ k < c.scopes.opened.length,
      scopes.get (.opened k) = c.scopes.get (.opened k) := by
    intro k hk
    simp only [Scopes.get, List.getD, opened k hk]
  intro id hid
  rw [h.stack, List.mem_append] at hid
  rcases hid with hid | hid
  · obtain ⟨k, hk, rfl⟩ := List.mem_map.mp hid
    exact hopened k (h.nested_lt hk)
  · simp only [List.mem_cons, List.not_mem_nil, or_false] at hid
    rcases hid with rfl | rfl | rfl
    · exact hopened _ h.number_lt
    · exact globals
    · exact builtins

theorem Inside.openLoops_of_frame (h : Inside f c inner inLoop Γ)
    (hframe : Frame c.scopes.opened.length c c') : c'.openLoops = c.openLoops := by
  have hget := h.get_congr hframe.builtins hframe.globals hframe.opened
  unfold Context.openLoops
  rw [hframe.stack]
  exact List.filter_congr fun id hid => by rw [hget id hid]

/-- The body of a loop has one more loop open, any other nested scope has not. -/
theorem Inside.openLoops_enter (h : Inside f c inner inLoop Γ) (v : Variant) (loc : Location) :
    (c.enter fun tag => .empty v tag loc).1.openLoops =
      if v = .loop then .opened c.scopes.opened.length :: c.openLoops else c.openLoops := by
  have hget : ∀ id ∈ c.stack, (c.enter fun tag => .empty v tag loc).1.scopes.get id =
      c.scopes.get id :=
    h.get_congr rfl rfl fun k hk => by
      simp [Context.enter, Context.push, Scopes.add, List.getElem?_append_left hk]
  have hstack : (c.enter fun tag => .empty v tag loc).1.stack =
      .opened c.scopes.opened.length :: c.stack := rfl
  have hnew : ((c.enter fun tag => .empty v tag loc).1.scopes.get
      (.opened c.scopes.opened.length)).variant = v := by
    simp [Context.enter, Context.push, Scopes.add, Scopes.get, List.getD, Scope.empty]
  have hothers : c.stack.filter (fun id => ((c.enter fun tag => .empty v tag loc).1.scopes.get
      id).variant = .loop) = c.openLoops :=
    List.filter_congr fun id hid => by rw [hget id hid]
  unfold Context.openLoops at hothers ⊢
  rw [hstack, List.filter_cons, hnew, hothers]
  simp only [decide_eq_true_eq]

/-- Outside all nested scopes no loop is open. -/
theorem Inside.openLoops_nil (h : Inside f c [] inLoop Γ) : c.openLoops = [] := by
  have hfunction := h.get_function
  have hglobals : (c.scopes.get .globals).variant = .global := h.globalVariant
  have hbuiltins : c.scopes.get .builtins = .builtins := h.builtins
  unfold Context.openLoops
  rw [h.stack]
  simp [hfunction, hglobals, hbuiltins, FunctionScope.scope, Scope.function, Scope.empty,
    Scope.builtins]

/-- A context inside a function, with the numbers of its open loops, in which one tag was
handed out for each scope. -/
structure Tracks (f : FunctionScope) (c : Context) (inner : List Nat) (inLoop : Bool) (Γ : Names)
    (around : List Nat) : Prop extends Inside f c inner inLoop Γ where
  tags : c.tags = c.scopes.opened.length
  openLoops : c.openLoops = around.map .opened

variable {around : List Nat}

theorem Tracks.of_frame (h : Tracks f c inner inLoop Γ around)
    (hframe : Frame c.scopes.opened.length c c') (tags : c'.tags = c'.scopes.opened.length) :
    Tracks f c' inner inLoop Γ around where
  toInside := h.toInside.of_frame hframe
  tags := tags
  openLoops := (h.toInside.openLoops_of_frame hframe).trans h.openLoops

/-- Opening a scope for a block or a loop. -/
theorem Tracks.enter (h : Tracks f c inner inLoop Γ around) {v : Variant}
    (hv : v = .block ∨ v = .loop) (loc : Location) :
    Tracks f (c.enter fun tag => .empty v tag loc).1 (c.scopes.opened.length :: inner)
      (v = .loop || inLoop) Γ (if v = .loop then c.scopes.opened.length :: around else around) where
  toInside := (h.toInside.enter hv loc).2
  tags := by
    rw [Frame.enter_length, ← h.tags]
    rfl
  openLoops := by
    rw [h.toInside.openLoops_enter, h.openLoops]
    split
    · rfl
    · rfl

/-- The innermost loop is the first of the open ones. -/
theorem Tracks.nearest_loop (h : Tracks f c inner inLoop Γ around) {id : ScopeId}
    (nearest : c.nearest? .loop = some id) :
    ∃ loop outer, around = loop :: outer ∧ id = .opened loop := by
  have hhead : c.openLoops.head? = some id := by
    rw [Context.openLoops, List.head?_filter]
    exact nearest
  rw [h.openLoops] at hhead
  cases around with
  | nil => cases hhead
  | cons loop outer =>
    cases hhead
    exact ⟨loop, outer, rfl, rfl⟩

end OpenLoops

/-! ## Statements -/

section Statements

variable {scopes : Scopes} {f : FunctionScope} {c c' : Context} {inner : List Nat}
  {inLoop : Bool} {Γ : Names} {around : List Nat}

/-- The scope opened for a nested block or a loop body is still there at the end. -/
theorem opened_of_enter (h : Tracks f c inner inLoop Γ around) {v : Variant} {loc : Location}
    (hframe : Frame (c.enter fun tag => .empty v tag loc).1.scopes.opened.length
      (c.enter fun tag => .empty v tag loc).1 c') (settled : Settled scopes f c') :
    scopes.opened[c.scopes.opened.length]? =
      some (.empty v (localTag c.scopes.opened.length) loc) := by
  have hlt : c.scopes.opened.length <
      (c.enter fun tag => .empty v tag loc).1.scopes.opened.length := by
    rw [Frame.enter_length]
    exact Nat.lt_succ_self _
  rw [settled _ h.toInside.number_lt (Nat.lt_of_lt_of_le hlt hframe.length), hframe.opened _ hlt,
    localTag, ← h.tags]
  simp [Context.enter, Context.push, Scopes.add, h.tags]

/-- The statements of a nested block are resolved if each of them is. -/
theorem stmtsResolved_of_checkStatements {ss : List Node} (nested : inner ≠ [])
    (each : ∀ s ∈ ss, ∀ {c c' : Context} {s' : Node}, Tracks f c inner inLoop Γ around →
      checkStatementIn none c s = (.ok (), s', c') → Settled scopes f c' →
      c'.tags = c'.scopes.opened.length ∧ StmtResolved scopes f Γ none around
        c.scopes.opened.length s s' c'.scopes.opened.length)
    {c c' : Context} {ss' : List Node} (h : Tracks f c inner inLoop Γ around)
    (accepted : checkStatements c ss = (.ok (), ss', c')) (settled : Settled scopes f c') :
    c'.tags = c'.scopes.opened.length ∧
      StmtsResolved scopes f Γ around c.scopes.opened.length ss ss' c'.scopes.opened.length := by
  have frame : ∀ {s s' : Node} {c c' : Context}, Inside f c inner inLoop Γ →
      checkStatementIn none c s = (.ok (), s', c') → Frame c.scopes.opened.length c c' :=
    fun hin => checkStatementIn_frame hin (by simp) fun hnil => absurd hnil nested
  induction ss generalizing c ss' with
  | nil =>
    obtain ⟨rfl, rfl⟩ := checkStatements_nil.mp accepted
    exact ⟨h.tags, .nil⟩
  | cons s rest ih =>
    obtain ⟨s', c₁, rest', hs, hrest, rfl⟩ := checkStatements_cons.mp accepted
    have hfirst := frame h.toInside hs
    have hothers := checkStatements_frame (fun _ _ => frame) (h.toInside.of_frame hfirst) hrest
    obtain ⟨htags, first⟩ := each s List.mem_cons_self h hs (settled.of_frame hothers)
    obtain ⟨htags', others⟩ := ih (fun s hs => each s (List.mem_cons_of_mem _ hs))
      (h.of_frame hfirst htags) hrest
    exact ⟨htags', .cons first others⟩

/-- An arm of a conditional or a loop body is resolved in the scope that is opened for it. -/
theorem resolved_of_scoped {v : Variant} {arm arm' : Node} {inside : Context × ScopeId}
    (each : ∀ {own : Option Nat} {c c' : Context} {n' : Node} {inner : List Nat} {inLoop : Bool}
      {around : List Nat}, Tracks f c inner inLoop Γ around → (own.isSome → inner ≠ []) →
      (inner = [] → arm.kind ≠ .variableDeclaration) →
      checkStatementIn (own.map .opened) c arm = (.ok (), n', c') → Settled scopes f c' →
      c'.tags = c'.scopes.opened.length ∧ StmtResolved scopes f Γ own around
        c.scopes.opened.length arm n' c'.scopes.opened.length)
    (h : Tracks f c inner inLoop Γ around) (hv : v = .block ∨ v = .loop)
    (isInside : inside = c.enter fun tag => .empty v tag arm.loc)
    (accepted : checkStatementIn (some inside.2) inside.1 arm = (.ok (), arm', c'))
    (settled : Settled scopes f c') :
    c'.tags = c'.scopes.opened.length ∧
      scopes.opened[c.scopes.opened.length]? =
        some (.empty v (localTag c.scopes.opened.length) arm.loc) ∧
      StmtResolved scopes f Γ (some c.scopes.opened.length)
        (if v = .loop then c.scopes.opened.length :: around else around)
        (c.scopes.opened.length + 1) arm arm' c'.scopes.opened.length := by
  subst isInside
  have hin := h.enter hv arm.loc
  have hframe := checkStatementIn_frame hin.toInside (by simp) (by simp) accepted
  have accepted' : checkStatementIn ((some c.scopes.opened.length).map ScopeId.opened)
      (c.enter fun tag => .empty v tag arm.loc).1 arm = (.ok (), arm', c') := accepted
  obtain ⟨htags, resolved⟩ := each hin (by simp) (by simp) accepted' settled
  rw [Frame.enter_length] at resolved
  exact ⟨htags, opened_of_enter h hframe settled, resolved⟩

/-- What is settled behind the second arm of a conditional is settled between its arms, where
the scopes are open that were open in front of the first. -/
theorem Settled.between_arms {c₁ c₂ : Context} {arm₁ arm₁' arm₂ arm₂' : Node}
    {inside₁ inside₂ : Context × ScopeId} (h : Inside f c inner inLoop Γ)
    (isInside₁ : inside₁ = c.enter fun tag => .empty .block tag arm₁.loc)
    (accepted₁ : checkStatementIn (some inside₁.2) inside₁.1 arm₁ = (.ok (), arm₁', c₁))
    (isInside₂ : inside₂ = (c₁.leaveTo c).enter fun tag => .empty .block tag arm₂.loc)
    (accepted₂ : checkStatementIn (some inside₂.2) inside₂.1 arm₂ = (.ok (), arm₂', c₂))
    (settled : Settled scopes f (c₂.leaveTo c)) :
    Frame c.scopes.opened.length c (c₁.leaveTo c) ∧ Settled scopes f (c₁.leaveTo c) := by
  have hframe₁ := frame_of_scoped checkStatementIn_frame h (.inl rfl) isInside₁ accepted₁
  have hbetween : Inside f (c₁.leaveTo c) inner inLoop Γ := h.of_frame hframe₁
  have hframe₂ := frame_of_scoped checkStatementIn_frame hbetween (.inl rfl) isInside₂ accepted₂
  exact ⟨hframe₁, Settled.of_frame settled hframe₂⟩

/-- A statement that passes the check is resolved. -/
theorem stmtResolved_of_checkStatementIn (final : Final scopes f Γ) {n : Node} :
    ∀ {own : Option Nat} {c c' : Context} {n' : Node} {inner : List Nat} {inLoop : Bool}
      {around : List Nat}, Tracks f c inner inLoop Γ around → (own.isSome → inner ≠ []) →
      (inner = [] → n.kind ≠ .variableDeclaration) →
      checkStatementIn (own.map .opened) c n = (.ok (), n', c') → Settled scopes f c' →
      c'.tags = c'.scopes.opened.length ∧ StmtResolved scopes f Γ own around
        c.scopes.opened.length n n' c'.scopes.opened.length := by
  induction n using Node.induction with
  | step n ih =>
    intro own c c' n' inner inLoop around h hown hkind accepted settled
    cases checkStatementIn_ok_iff.mp accepted with
    | @block _ loc ch ch' c' acceptedAll =>
      have each : ∀ {inner : List Nat} {inLoop : Bool} {around : List Nat}, inner ≠ [] →
          ∀ s ∈ ch, ∀ {c c' : Context} {s' : Node}, Tracks f c inner inLoop Γ around →
          checkStatementIn none c s = (.ok (), s', c') → Settled scopes f c' →
          c'.tags = c'.scopes.opened.length ∧ StmtResolved scopes f Γ none around
            c.scopes.opened.length s s' c'.scopes.opened.length :=
        fun nested s hs c c' s' hc haccepted => ih s (Node.mem_descendants_of_child hs) hc
          (by simp) (fun hnil => absurd hnil nested) haccepted
      cases own with
      | some own =>
        obtain ⟨htags, statements⟩ :=
          stmtsResolved_of_checkStatements (hown rfl) (each (hown rfl)) h acceptedAll settled
        exact ⟨htags, .armBlock statements⟩
      | none =>
        have hin := h.enter (.inl rfl) loc
        obtain ⟨htags, statements⟩ :=
          stmtsResolved_of_checkStatements (by simp) (each (by simp)) hin acceptedAll settled
        have hframe := checkStatements_frame
          (fun s _ c c' s' hc => checkStatementIn_frame hc (by simp) (by simp)) hin.toInside
          acceptedAll
        rw [Frame.enter_length] at statements
        exact ⟨htags, .block (opened_of_enter h hframe settled) statements⟩
    | declaration isType isTop inFunction fresh =>
      obtain ⟨hnil, -⟩ := h.toInside.top_variant isTop inFunction
      exact absurd rfl (hkind hnil)
    | expression acceptedExpr =>
      exact ⟨h.tags, .expression (exprResolved_of_checkExpression h.toInside final acceptedExpr)⟩
    | call isCall acceptedCall =>
      exact ⟨h.tags, .call isCall (exprResolved_of_checkExpression h.toInside final acceptedCall)⟩
    | null => exact ⟨h.tags, .null⟩
    | @ifThen _ _ _ _ _ arm _ _ _ isInside acceptedCond acceptedArm =>
      have condition := exprResolved_of_checkExpression h.toInside final acceptedCond
      obtain ⟨htags, opened, whenTrue⟩ :=
        resolved_of_scoped (ih arm (Node.mem_descendants_of_child (by simp))) h (.inl rfl)
          isInside acceptedArm settled
      exact ⟨htags, .ifThen condition opened whenTrue⟩
    | @ifElse _ _ _ _ _ arm₁ _ arm₂ _ _ _ c₁ c₂ isInside₁ isInside₂ acceptedCond accepted₁
        accepted₂ =>
      have condition := exprResolved_of_checkExpression h.toInside final acceptedCond
      obtain ⟨hframe₁, settled₁⟩ := Settled.between_arms h.toInside isInside₁ accepted₁ isInside₂
        accepted₂ settled
      obtain ⟨htags₁, opened₁, whenTrue⟩ :=
        resolved_of_scoped (ih arm₁ (Node.mem_descendants_of_child (by simp))) h (.inl rfl)
          isInside₁ accepted₁ settled₁
      obtain ⟨htags₂, opened₂, whenFalse⟩ :=
        resolved_of_scoped (ih arm₂ (Node.mem_descendants_of_child (by simp)))
          (h.of_frame hframe₁ htags₁) (.inl rfl) isInside₂ accepted₂ settled
      exact ⟨htags₂, .ifElse condition opened₁ whenTrue opened₂ whenFalse⟩
    | @«while» _ _ _ _ _ body _ _ _ isInside acceptedCond acceptedBody =>
      have condition := exprResolved_of_checkExpression h.toInside final acceptedCond
      obtain ⟨htags, opened, repeated⟩ :=
        resolved_of_scoped (ih body (Node.mem_descendants_of_child (by simp))) h (.inr rfl)
          isInside acceptedBody settled
      exact ⟨htags, .while condition opened repeated⟩
    | returnNothing _ _ => exact ⟨h.tags, .returnNothing⟩
    | returnValue _ _ acceptedValue =>
      exact ⟨h.tags,
        .returnValue (exprResolved_of_checkExpression h.toInside final acceptedValue)⟩
    | «break» nearest =>
      obtain ⟨loop, outer, rfl, rfl⟩ := h.nearest_loop nearest
      exact ⟨h.tags, .break⟩

end Statements

/-! ## Bodies and parameters -/

section Bodies

variable {scopes : Scopes} {f : FunctionScope} {c c' : Context} {Γ : Names}

/-- What a type keyword and an identifier bind. -/
theorem binding?_typedName {kind : Kind} {attr name : Bytes} {loc nameLoc : Location}
    {note nameNote : Option Annotation} {t : Node} {nameCh : List Node} {ty : Ty}
    (isType : t.kind.valueType? = some ty) :
    (⟨kind, attr, loc, note, [t, ⟨.id, name, nameLoc, nameNote, nameCh⟩]⟩ : Node).binding? =
      some (name, ty) :=
  Node.binding?_eq_some.mpr ⟨t, _, rfl, rfl, isType, rfl⟩

theorem Final.of_declareAll {vs : List (Bytes × Ty)} (h : Final scopes f (Γ.declareAll vs)) :
    Final scopes f Γ := by
  obtain ⟨more, hown⟩ := h.own
  refine ⟨h.builtins, h.globalVars, h.globalFuncs, vs ++ more, ?_⟩
  rw [hown, Names.declareAll, List.append_assoc]

/-- Declaring a variable of the function concerns none of its nested scopes. -/
theorem Settled.of_bind {name : Bytes} {ty : Ty}
    (h : Settled scopes f (c.bind (.opened f.number) name ty)) : Settled scopes f c := by
  intro k later hk
  rw [h k later (by simpa [Context.bind, Scopes.set] using hk)]
  simp [Context.bind, Scopes.set, List.getElem?_set_ne (Nat.ne_of_lt later)]

theorem Tracks.bind {inLoop : Bool} (h : Tracks f c [] inLoop Γ []) (name : Bytes) (ty : Ty) :
    Tracks f (c.bind (.opened f.number) name ty) [] inLoop (Γ.declare name ty) [] where
  toInside := h.toInside.bind name ty
  tags := by simpa [Context.bind, Scopes.set] using h.tags
  openLoops := (h.toInside.bind name ty).openLoops_nil

theorem Settled.of_checkBody {ss ss' : List Node} (h : Inside f c [] false Γ)
    (accepted : checkStatements c ss = (.ok (), ss', c')) (settled : Settled scopes f c') :
    Settled scopes f c := by
  induction ss generalizing c Γ ss' with
  | nil =>
    obtain ⟨-, rfl⟩ := checkStatements_nil.mp accepted
    exact settled
  | cons s rest ih =>
    obtain ⟨s', c₁, rest', hs, hrest, -⟩ := checkStatements_cons.mp accepted
    by_cases isDeclaration : s.kind = .variableDeclaration
    · obtain ⟨name, ty, -, -, -, rfl⟩ := checkDeclaration_ok h isDeclaration hs
      exact Settled.of_bind (ih (h.bind name ty) hrest)
    · have hframe := checkStatementIn_frame h (by simp) (fun _ => isDeclaration) hs
      exact Settled.of_frame (ih (h.of_frame hframe) hrest) hframe

/-- The direct statements of a function that pass the check are resolved. -/
theorem bodyResolved_of_checkStatements {ss ss' : List Node} (h : Tracks f c [] false Γ [])
    (final : Final scopes f (Γ.declareAll (declaredBy ss)))
    (accepted : checkStatements c ss = (.ok (), ss', c')) (settled : Settled scopes f c') :
    c'.tags = c'.scopes.opened.length ∧
      BodyResolved scopes f Γ c.scopes.opened.length ss ss' c'.scopes.opened.length := by
  induction ss generalizing c Γ ss' with
  | nil =>
    obtain ⟨rfl, rfl⟩ := checkStatements_nil.mp accepted
    exact ⟨h.tags, .nil⟩
  | cons s rest ih =>
    obtain ⟨s', c₁, rest', hs, hrest, rfl⟩ := checkStatements_cons.mp accepted
    by_cases isDeclaration : s.kind = .variableDeclaration
    · cases checkStatementIn_ok_iff.mp hs with
      | @declaration _ _ _ t name _ _ ty _ isType isTop inFunction _ =>
        obtain ⟨-, rfl⟩ := h.toInside.top_variant isTop inFunction
        rw [declaredBy_declaration rfl (binding?_typedName isType),
          ← Names.declare_declareAll] at final
        obtain ⟨htags, others⟩ := ih (h.bind name ty) final hrest
        have hlength : (c.bind (.opened f.number) name ty).scopes.opened.length =
            c.scopes.opened.length := by
          simp [Context.bind, Scopes.set]
        rw [hlength] at others
        exact ⟨htags, .declaration isType others⟩
      | call isCall _ =>
        rw [isCall] at isDeclaration
        cases isDeclaration
      | _ => simp at isDeclaration
    · have hframe := checkStatementIn_frame h.toInside (by simp) (fun _ => isDeclaration) hs
      have hin := h.toInside.of_frame hframe
      rw [declaredBy_other isDeclaration] at final
      have hs' : checkStatementIn ((none : Option Nat).map .opened) c s = (.ok (), s', c₁) := hs
      obtain ⟨htags, first⟩ := stmtResolved_of_checkStatementIn final.of_declareAll h (by simp)
        (fun _ => isDeclaration) hs' (settled.of_checkBody hin hrest)
      obtain ⟨htags', others⟩ := ih (h.of_frame hframe htags) final hrest
      exact ⟨htags', .statement first others⟩

theorem paramsResolved_of_checkParameters {ps ps' : List Node} {params : List (Bytes × Ty)}
    (h : Tracks f c [] false Γ []) (binds : ps.mapM Node.binding? = some params)
    (accepted : checkParameters (.opened f.number) c ps = (.ok (), ps', c')) :
    ParamsResolved (.opened f.number) ps ps' params ∧
      Tracks f c' [] false (Γ.declareAll params) [] ∧
      c'.scopes.opened.length = c.scopes.opened.length := by
  induction ps generalizing c Γ ps' params with
  | nil =>
    obtain ⟨rfl, rfl⟩ := checkParameters_nil.mp accepted
    cases binds
    exact ⟨.nil, by simpa using h, rfl⟩
  | cons p rest ih =>
    obtain ⟨p', c₁, rest', hp, hrest, rfl⟩ := checkParameters_cons.mp accepted
    obtain ⟨⟨name, ty⟩, params', hbinding, hbindings, rfl⟩ := bindings_cons.mp binds
    obtain ⟨t, id, ty', hkind, hch, isType, isId, hnote, -, rfl, rfl⟩ :=
      checkParameter_ok_iff.mp hp
    rcases p with ⟨kind, attr, loc, note, children⟩
    rcases id with ⟨idKind, idName, idLoc, idNote, idCh⟩
    simp only at hkind hch isId hnote
    subst hkind hch isId hnote
    cases hbinding.symm.trans (binding?_typedName isType)
    obtain ⟨others, htracks, hlength⟩ := ih (h.bind name ty) hbindings hrest
    rw [Names.declare_declareAll] at htracks
    refine ⟨.cons isType others, htracks, hlength.trans ?_⟩
    simp [Context.bind, Scopes.set]

end Bodies

/-! ## Functions and programs -/

section Functions

variable {scopes : Scopes} {c c' : Context}

theorem Between.enter_tracks (h : Between c) (tags : c.tags = c.scopes.opened.length)
    (loc : Location) (result : Ty) :
    Tracks (c.nextFunction loc result) (c.enter fun tag => .function tag loc result).1 [] false
      c.names [] where
  toInside := h.enter loc result
  tags := by
    rw [Frame.enter_length, ← tags]
    rfl
  openLoops := (h.enter loc result).openLoops_nil

/-- The check of a function body on its way: the parameters are declared, and at the end the
scope of the function binds them and the variables of the body. -/
structure BodyContext (scopes : Scopes) (f : FunctionScope) (c c₁ c₂ : Context) (ps ps' ss : List Node)
    (params : List (Bytes × Ty)) : Prop where
  binds : ps.mapM Node.binding? = some params
  parameters : ParamsResolved (.opened f.number) ps ps' params
  distinct : ((params ++ declaredBy ss).map Prod.fst).Nodup
  tracks : Tracks f c₁ [] false (c.names.declareAll params) []
  length : c₁.scopes.opened.length = c.scopes.opened.length + 1
  own : scopes.opened[c.scopes.opened.length]? = some (f.scope (params ++ declaredBy ss))
  final : Final scopes f ((c.names.declareAll params).declareAll (declaredBy ss))
  settled : Settled scopes f c₂

theorem bodyContext_of_checkFunction (h : Between c) (tags : c.tags = c.scopes.opened.length)
    (builtins : scopes.builtins = .builtins) (globals : scopes.globals = c.scopes.globals)
    {loc : Location} {result : Ty} {ps ps' ss ss' : List Node} {c₁ c₂ : Context}
    (acceptedParams : checkParameters (.opened c.scopes.opened.length)
      (c.enter fun tag => .function tag loc result).1 ps = (.ok (), ps', c₁))
    (acceptedBody : checkStatements c₁ ss = (.ok (), ss', c₂))
    (opened : ∀ k < c₂.scopes.opened.length, scopes.opened[k]? = c₂.scopes.opened[k]?) :
    ∃ params, BodyContext scopes (c.nextFunction loc result) c c₁ c₂ ps ps' ss params := by
  have henter := h.enter_tracks tags loc result
  obtain ⟨params, -, hbinds, -, hnodup, -, -⟩ :=
    checkParameters_run henter.toInside (by simp [Context.names]) acceptedParams
  obtain ⟨parameters, htracks, hlength⟩ :=
    paramsResolved_of_checkParameters henter hbinds acceptedParams
  obtain ⟨-, distinct, hend, -⟩ := checkBody_run htracks.toInside hnodup acceptedBody
  have hown : scopes.opened[c.scopes.opened.length]? =
      some ((c.nextFunction loc result).scope (params ++ declaredBy ss)) :=
    (opened _ hend.number_lt).trans hend.function
  exact ⟨params, {
    binds := hbinds
    parameters := parameters
    distinct := distinct
    tracks := htracks
    length := hlength.trans (Frame.enter_length c _)
    own := hown
    final := ⟨builtins, by rw [globals]; rfl, by rw [globals]; rfl, [],
      hown.trans (by rw [List.append_nil]; rfl)⟩
    settled := fun k _ hk => opened k hk }⟩

/-- A function or entry point that passes the check is resolved. -/
theorem functionResolved_of_checkFunction (h : Between c) (tags : c.tags = c.scopes.opened.length)
    (builtins : scopes.builtins = .builtins) (globals : scopes.globals = c.scopes.globals)
    {kind : Kind} {attr : Bytes} {loc : Location} {note : Option Annotation}
    {resultNode list body fn' : Node} {name text : Bytes} {nameLoc : Location}
    {nameCh : List Node}
    (accepted : checkFunction c ⟨kind, attr, loc, note, [resultNode,
      ⟨.id, name, nameLoc, some ⟨text, some .globals⟩, nameCh⟩, list, body]⟩ = (.ok (), fn', c'))
    (opened : ∀ k < c'.scopes.opened.length, scopes.opened[k]? = c'.scopes.opened[k]?) :
    c'.tags = c'.scopes.opened.length ∧ ∃ params result, resultNode.kind.type? = some result ∧
      list.children.mapM Node.binding? = some params ∧
      FunctionResolved scopes c.scopes.globals.vars c.scopes.globals.funcs c.scopes.opened.length
        ⟨kind, attr, loc, note, [resultNode, ⟨.id, name, nameLoc, none, nameCh⟩, list, body]⟩ fn'
        name ⟨params.map Prod.snd, result⟩ text c'.scopes.opened.length := by
  cases checkFunction_ok_iff.mp accepted with
  | @intro _ _ _ _ _ _ _ _ _ ps ps' _ _ ss ss' result inside c₁ c₂ isInside isResult
      acceptedParams acceptedBody =>
    subst isInside
    obtain ⟨params, context⟩ :=
      bodyContext_of_checkFunction h tags builtins globals acceptedParams acceptedBody opened
    obtain ⟨htags, body⟩ := bodyResolved_of_checkStatements context.tracks context.final
      acceptedBody context.settled
    rw [context.length] at body
    have isOwn : c.nextFunction loc result =
        ⟨c.scopes.opened.length, localTag c.scopes.opened.length, loc, result⟩ := by
      rw [Context.nextFunction, localTag, tags]
    exact ⟨htags, params, result, isResult, context.binds,
      .intro isOwn isResult context.own context.distinct context.parameters body⟩

/-- The declarations of a program that pass the check are resolved. -/
theorem declsResolved_of_checkBodiesOf {ds ds' ds'' : List Node} {vs : List (Bytes × Ty)}
    {fs : List (Bytes × Signature)} (noted : DeclsNoted ds ds' vs fs) (h : Between c)
    (tags : c.tags = c.scopes.opened.length) (builtins : scopes.builtins = .builtins)
    (globals : scopes.globals = c.scopes.globals)
    (accepted : checkBodiesOf c ds' = (.ok (), ds'', c'))
    (opened : ∀ k < c'.scopes.opened.length, scopes.opened[k]? = c'.scopes.opened[k]?) :
    DeclsResolved scopes c.scopes.globals.vars c.scopes.globals.funcs c.scopes.opened.length ds
      ds'' vs fs c'.scopes.opened.length := by
  induction noted generalizing c ds'' with
  | nil =>
    rw [checkBodiesOf] at accepted
    cases accepted
    exact .nil
  | @entryPoint _ _ _ resultNode _ _ _ _ _ _ _ _ _ isVoid _ ih =>
    obtain ⟨d', c₁, rest', hd, hrest, rfl⟩ := Lower.checkBodiesOf_function (.inr rfl) accepted
    have hframe := checkFunction_frame h hd
    have hothers := Lower.checkBodiesOf_frame (h.of_frame hframe) hrest
    obtain ⟨htags, params, result, isResult, -, function⟩ :=
      functionResolved_of_checkFunction h tags builtins globals hd fun k hk =>
        (opened k (Nat.lt_of_lt_of_le hk hothers.length)).trans (hothers.opened k hk)
    have others := ih (h.of_frame hframe) htags (globals.trans hframe.globals.symm) hrest
    rw [hframe.globals] at others
    rw [isVoid] at isResult
    cases isResult
    exact .entryPoint rfl rfl function others
  | @function _ _ _ _ name _ _ list _ sig _ _ _ _ isResult isParams _ ih =>
    obtain ⟨d', c₁, rest', hd, hrest, rfl⟩ := Lower.checkBodiesOf_function (.inl rfl) accepted
    have hframe := checkFunction_frame h hd
    have hothers := Lower.checkBodiesOf_frame (h.of_frame hframe) hrest
    obtain ⟨htags, params, result, isResult', hbinds, function⟩ :=
      functionResolved_of_checkFunction h tags builtins globals hd fun k hk =>
        (opened k (Nat.lt_of_lt_of_le hk hothers.length)).trans (hothers.opened k hk)
    have others := ih (h.of_frame hframe) htags (globals.trans hframe.globals.symm) hrest
    rw [hframe.globals] at others
    rw [← parameterTypes_of_bindings isParams hbinds,
      ← Option.some.inj (isResult.symm.trans isResult')] at function
    exact .function rfl function others
  | global isType _ ih =>
    obtain ⟨rest', hrest, rfl⟩ := Lower.checkBodiesOf_other (by simp) accepted
    exact .global isType (ih h tags globals hrest)

/-- The collection of global declarations hands out no tags. -/
theorem tags_of_collectDeclarations {ds ds' : List Node}
    (collected : collectDeclarations c ds = (.ok (), ds', c')) : c'.tags = c.tags := by
  induction ds generalizing c ds' with
  | nil =>
    obtain ⟨-, rfl⟩ := collectDeclarations_nil.mp collected
    rfl
  | cons d rest ih =>
    obtain ⟨d', c₁, rest', hd, hrest, -⟩ := collectDeclarations_cons.mp collected
    refine (ih hrest).trans ?_
    cases DeclCollected.of_collectDeclaration hd with
    | entryPoint => rfl
    | function => rfl
    | global => rfl

/-- A program that passes the checker is resolved. -/
theorem programResolved_of_checkProgram {root : Node} {checked : CheckedProgram}
    (accepted : checkProgram root = .ok checked) :
    ProgramResolved checked.scopes root checked.tree := by
  obtain ⟨root', c, c', ds, hcollect, hbodies, -, rfl⟩ := Lower.checkProgram_ok accepted
  have hcollected := Collected.of_collectGlobals hcollect
  obtain ⟨decls, isGlobals, hall, -, rfl⟩ := collectGlobals_ok hcollect
  obtain ⟨vs, fs, noted, hvars, hfuncs⟩ := declsNoted_of_collectDeclarations hall
  obtain rfl : c.scopes.globals.vars = vs := hvars
  obtain rfl : c.scopes.globals.funcs = fs := hfuncs
  have htags : c.tags = c.scopes.opened.length :=
    (tags_of_collectDeclarations hall).trans (by rw [hcollected.opened]; rfl)
  have hframe := Lower.checkBodiesOf_frame hcollected.toBetween hbodies
  have builtins : c'.scopes.builtins = .builtins := hframe.builtins.trans hcollected.builtins
  have declarations := declsResolved_of_checkBodiesOf noted hcollected.toBetween htags builtins
    hframe.globals hbodies fun _ _ => rfl
  rw [hcollected.opened, ← hframe.globals] at declarations
  rcases root with ⟨kind, attr, loc, note, children⟩
  obtain rfl : kind = .globalDeclarations := isGlobals
  refine .intro builtins ?_ ?_ declarations
  · rw [hframe.globals]
    exact hcollected.varNames
  · rw [hframe.globals]
    exact hcollected.funcNames

end Functions

/-- The names of an accepted program are resolved.

The tree carries the notes that `ProgramResolved` asks for: a name in a function body has the
scope and the type of the variable that it stands for at its place, a call those of the
function that is called, an expression its type, a declared name the scope in which it is
declared, and a nested block the scope opened for it.  In a program that conforms to the
layouts, no identifier is left out.  The local scopes of the run have different tags. -/
theorem names_resolved {root : Node} {checked : CheckedProgram} (layout : root.IsProgram)
    (accepted : checkProgram root = .ok checked) :
    ProgramResolved checked.scopes root checked.tree ∧ checked.tree.IdsNoted ∧
      (checked.scopes.opened.map Scope.tag).Nodup := by
  have resolved := programResolved_of_checkProgram accepted
  exact ⟨resolved, resolved.idsNoted layout, resolved.tagged.nodup⟩

theorem names_resolved_sample :
    sampleProgram.IsProgram ∧ ∃ checked, checkProgram sampleProgram = .ok checked ∧
      ProgramResolved checked.scopes sampleProgram checked.tree ∧ checked.tree.IdsNoted ∧
      (checked.scopes.opened.map Scope.tag).Nodup := by
  have layout : sampleProgram.IsProgram := ⟨rfl, by decide⟩
  obtain ⟨checked, accepted⟩ := Lower.sampleProgram_accepted
  exact ⟨layout, checked, accepted, names_resolved layout accepted⟩

end TreeWat.Check
