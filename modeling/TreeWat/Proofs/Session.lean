import TreeWat.Proofs.Typing
import TreeWat.Session
set_option autoImplicit false

/-!
# Session: what a check leaves behind

A session goes on behind a check that fails, in the context that the check leaves.  This
works because a check puts the context back, accepted or not: every scope it opened is closed
and no scope that was open has changed.  A variable declaration that is accepted is the one
exception.  It adds its variable to the innermost scope, which is that of a function.

Every session starts with a well-formed context, and every step keeps it well formed
(`wellFormed_after`), so that the main statement (`checks_restore`) holds of every check that
a session makes.
-/

namespace TreeWat

namespace Check

/-! ## Well-formed contexts -/

/-- Every open scope exists, and the program-wide scopes are of their own variants. -/
structure Context.WellFormed (c : Context) : Prop where
  opened : ∀ k, .opened k ∈ c.stack → k < c.scopes.opened.length
  builtins : c.scopes.builtins.variant = .default
  globals : c.scopes.globals.variant = .global

theorem Context.WellFormed.initial : Context.initial.WellFormed :=
  ⟨by simp [Context.initial], rfl, rfl⟩

theorem Context.WellFormed.push {c : Context} (formed : c.WellFormed) (s : Scope) :
    (c.push s).1.WellFormed where
  opened k hk := by
    have hlength : (c.push s).1.scopes.opened.length = c.scopes.opened.length + 1 := by
      simp [Context.push, Scopes.add]
    rcases List.mem_cons.mp hk with heq | hk
    · cases heq
      omega
    · exact hlength ▸ Nat.lt_succ_of_lt (formed.opened k hk)
  builtins := formed.builtins
  globals := formed.globals

theorem Context.WellFormed.pop {c c' : Context} {id : ScopeId} (formed : c.WellFormed)
    (popped : c.pop = .ok (c', id)) : c'.WellFormed := by
  unfold Context.pop at popped
  split at popped
  · cases popped
  · rename_i hstack
    cases popped
    exact ⟨fun k hk => formed.opened k (hstack ▸ List.mem_cons_of_mem _ hk), formed.builtins,
      formed.globals⟩

/-- No scope was opened, closed or removed, and the program-wide ones are of the variants of
which they were. -/
structure Keeps (c c' : Context) : Prop where
  stack : c'.stack = c.stack
  builtins : c'.scopes.builtins.variant = c.scopes.builtins.variant
  globals : c'.scopes.globals.variant = c.scopes.globals.variant
  length : c.scopes.opened.length ≤ c'.scopes.opened.length

namespace Keeps

theorem refl (c : Context) : Keeps c c :=
  ⟨rfl, rfl, rfl, Nat.le_refl _⟩

theorem trans {c₁ c₂ c₃ : Context} (h₁ : Keeps c₁ c₂) (h₂ : Keeps c₂ c₃) : Keeps c₁ c₃ :=
  ⟨h₂.stack.trans h₁.stack, h₂.builtins.trans h₁.builtins, h₂.globals.trans h₁.globals,
    Nat.le_trans h₁.length h₂.length⟩

theorem wellFormed {c c' : Context} (h : Keeps c c') (formed : c.WellFormed) : c'.WellFormed where
  opened k hk := Nat.lt_of_lt_of_le (formed.opened k (h.stack ▸ hk)) h.length
  builtins := h.builtins.trans formed.builtins
  globals := h.globals.trans formed.globals

theorem of_frame {k : Nat} {c c' : Context} (h : Frame k c c') : Keeps c c' :=
  ⟨h.stack, congrArg Scope.variant h.builtins, congrArg Scope.variant h.globals, h.length⟩

/-- A scope was replaced by one of its variant. -/
theorem set {c : Context} {id : ScopeId} {s : Scope}
    (same : s.variant = (c.scopes.get id).variant) :
    Keeps c { c with scopes := c.scopes.set id s } := by
  cases id with
  | builtins => exact ⟨rfl, same, rfl, Nat.le_refl _⟩
  | globals => exact ⟨rfl, rfl, same, Nat.le_refl _⟩
  | opened k => exact ⟨rfl, rfl, rfl, by simp [Scopes.set]⟩

theorem declare {c c' : Context} {id : ScopeId} {name : Bytes} {ty : Ty} {loc : Location}
    (declared : c.declare id name ty loc = .ok c') : Keeps c c' := by
  obtain ⟨-, rfl⟩ := Context.declare_ok_iff.mp declared
  exact .set rfl

theorem declareFunc {c c' : Context} {id : ScopeId} {name : Bytes} {sig : Signature}
    {loc : Location} (declared : c.declareFunc id name sig loc = .ok c') : Keeps c c' := by
  unfold Context.declareFunc Scope.declareFunc at declared
  split at declared
  · split at declared
    · cases declared
    · rename_i s hs
      cases declared
      split at hs
      · cases hs
      · cases hs
        exact .set rfl
  · cases declared

theorem setEntryPoint {c c' : Context} {id : ScopeId} {name : Bytes} {loc : Location}
    (declared : c.setEntryPoint id name loc = .ok c') : Keeps c c' := by
  unfold Context.setEntryPoint Scope.setEntryPoint at declared
  split at declared
  · cases declared
  · rename_i s hs
    cases declared
    split at hs
    · cases hs
    · cases hs
      exact .set rfl

end Keeps

/-! ## Collecting declarations -/

theorem context_noteName (c : Context) (decl id : Node) (sig : Bytes) :
    (noteName c decl id sig).2.2 = c := by
  unfold noteName
  split <;> rfl

theorem keeps_collectDeclaration (c : Context) (d : Node) :
    Keeps c (collectDeclaration c d).2.2 := by
  unfold collectDeclaration
  split
  · split
    · exact .refl c
    · split
      · exact .refl c
      · rw [context_noteName]
        exact .setEntryPoint ‹_›
  · split
    · exact .refl c
    · split
      · exact .refl c
      · rw [context_noteName]
        exact .declareFunc ‹_›
  · split
    · exact .refl c
    · split
      · exact .refl c
      · rw [context_noteName]
        exact .declare ‹_›
  · exact .refl c

theorem keeps_collectDeclarations (c : Context) (ds : List Node) :
    Keeps c (collectDeclarations c ds).2.2 := by
  induction ds generalizing c with
  | nil => exact .refl c
  | cons d rest ih =>
    rw [collectDeclarations]
    have first := keeps_collectDeclaration c d
    split
    · rename_i hd
      rw [hd] at first
      exact first
    · rename_i d' c₁ hd
      rw [hd] at first
      exact first.trans (ih c₁)

theorem keeps_collectGlobals (c : Context) (root : Node) :
    Keeps c (collectGlobals c root).2.2 := by
  unfold collectGlobals
  split
  · exact .refl c
  · have hall := keeps_collectDeclarations c root.children
    split
    · rename_i heq
      rw [heq] at hall
      exact hall
    · rename_i heq
      rw [heq] at hall
      split <;> exact hall

/-! ## Variable declarations -/

/-- Behind the check the innermost scope, that of a function, has one more variable, and
nothing else has changed. -/
structure Declares (c c' : Context) (name : Bytes) (ty : Ty) : Prop where
  stack : c'.stack = c.stack
  builtins : c'.scopes.builtins = c.scopes.builtins
  globals : c'.scopes.globals = c.scopes.globals
  tags : c'.tags = c.tags
  innermost : ∃ top, c.top? = some top ∧ (c.scopes.get top).variant = .function ∧
    c'.scopes.get top =
      { c.scopes.get top with vars := (c.scopes.get top).vars ++ [(name, ty)] }
  others : ∀ id, c.top? ≠ some id → c'.scopes.get id = c.scopes.get id

/-- The check of a variable declaration leaves the context as it was, or it adds the variable
and ends without a diagnostic. -/
theorem checkVariable_context (c : Context) (n : Node) :
    ((checkVariable c n).1 ≠ .ok () ∧ (checkVariable c n).2.2 = c) ∨
      (∀ d, (checkVariable c n).1 ≠ .error (.user d)) ∧
        ∃ top name ty, n.binding? = some (name, ty) ∧ c.top? = some top ∧
          (c.scopes.get top).variant = .function ∧
          (checkVariable c n).2.2 = c.bind top name ty := by
  unfold checkVariable
  split
  · exact .inl ⟨by simp, rfl⟩
  · rename_i ty id hname
    obtain ⟨t, hch, isType, isId⟩ := typedName_ok_iff.mp hname
    have binds : n.binding? = some (id.attr, ty) :=
      Node.binding?_eq_some.mpr ⟨t, id, hch, isId, isType, rfl⟩
    split
    · exact .inl ⟨by simp, rfl⟩
    · rename_i top isTop
      split
      · exact .inl ⟨by simp, rfl⟩
      · rename_i inFunction
        split
        · exact .inl ⟨by simp, rfl⟩
        · rename_i c' declared
          obtain ⟨-, rfl⟩ := Context.declare_ok_iff.mp declared
          have isFunction := Decidable.not_not.mp inFunction
          split
          · exact .inr ⟨by simp, top, id.attr, ty, binds, isTop, isFunction, rfl⟩
          · exact .inr ⟨by simp, top, id.attr, ty, binds, isTop, isFunction, rfl⟩

/-- A variable that is added to the scope of a function. -/
theorem declares_bind {c : Context} (formed : c.WellFormed) {top : ScopeId}
    (isTop : c.top? = some top) (isFunction : (c.scopes.get top).variant = .function)
    (name : Bytes) (ty : Ty) : Declares c (c.bind top name ty) name ty := by
  -- the program-wide scopes are of other variants
  cases top with
  | builtins => cases formed.builtins.symm.trans isFunction
  | globals => cases formed.globals.symm.trans isFunction
  | opened k =>
    have exists_k : k < c.scopes.opened.length :=
      formed.opened k (List.mem_of_mem_head? isTop)
    refine ⟨rfl, rfl, rfl, rfl, ⟨_, isTop, isFunction, Scopes.get_set_self _ exists_k⟩, ?_⟩
    intro id hne
    cases id with
    | builtins => rfl
    | globals => rfl
    | opened j => exact Scopes.get_set_of_ne _ fun heq => hne (heq ▸ isTop)

theorem checkStatement_declaration {n : Node} (isDeclaration : n.kind = .variableDeclaration)
    (c : Context) : checkStatement c n = checkVariable c n := by
  rcases n with ⟨kind, attr, loc, note, children⟩
  obtain rfl : kind = .variableDeclaration := isDeclaration
  rw [checkStatement, checkStatementIn]

theorem keeps_checkStatement (c : Context) (n : Node) : Keeps c (checkStatement c n).2.2 := by
  by_cases isDeclaration : n.kind = .variableDeclaration
  · rw [checkStatement_declaration isDeclaration]
    obtain ⟨-, same⟩ | ⟨-, top, name, ty, -, -, -, bound⟩ := checkVariable_context c n
    · rw [same]
      exact .refl c
    · rw [bound]
      exact .set rfl
  · exact .of_frame (frame_checkStatementIn isDeclaration c)

/-! ## Restored contexts -/

/-- The same scopes are open in the same order, the program-wide scopes and the open ones
have not changed, and no tag was taken back. -/
structure Restored (c c' : Context) : Prop where
  stack : c'.stack = c.stack
  builtins : c'.scopes.builtins = c.scopes.builtins
  globals : c'.scopes.globals = c.scopes.globals
  tags : c.tags ≤ c'.tags
  scopes : ∀ id ∈ c.stack, c'.scopes.get id = c.scopes.get id

theorem restored_of_frame {c c' : Context} (formed : c.WellFormed)
    (h : Frame c.scopes.opened.length c c') : Restored c c' where
  stack := h.stack
  builtins := h.builtins
  globals := h.globals
  tags := h.tags
  scopes id hid := by
    cases id with
    | builtins => exact h.builtins
    | globals => exact h.globals
    | opened k => exact h.get (formed.opened k hid)

theorem restored_refl (c : Context) : Restored c c :=
  ⟨rfl, rfl, rfl, Nat.le_refl _, fun _ _ => rfl⟩

end Check

/-! ## Sessions -/

namespace Session

open Check

theorem wellFormed_act {s : Session} (formed : s.context.WellFormed) (action : TreeAction)
    (n : Node) : (s.act action n).2.2.context.WellFormed := by
  have lowered : ∀ step, (s.lowered n step).2.2.context = s.context := by
    intro step
    unfold Session.lowered
    split <;> rfl
  cases action with
  | read | dump | checkExpression => exact formed
  | checkStatement => exact (keeps_checkStatement _ n).wellFormed formed
  | checkFunction => exact (Keeps.of_frame (frame_checkFunction _ n)).wellFormed formed
  | collectGlobals => exact (keeps_collectGlobals _ n).wellFormed formed
  | checkBodies => exact (Keeps.of_frame (frame_checkBodies _ n)).wellFormed formed
  | lowerStatement | lowerExpression | lowerFunction =>
    rw [act, lowered]
    exact formed
  | checkReturns | exit | generate =>
    unfold act
    dsimp only
    split <;> exact formed

theorem wellFormed_actAt {s : Session} (formed : s.context.WellFormed) (action : TreeAction)
    (root : Node) (path : List Int64) (remember : Option Bytes) :
    (s.actAt action root path remember).2.context.WellFormed := by
  unfold actAt
  split
  · exact formed
  · rename_i n _
    have hact := wellFormed_act formed action n
    dsimp only
    split <;> exact hact

theorem ofRule_ok_iff {α : Type} {o : Except Diagnostic α} {a : α} :
    Outcome.ofRule o = .ok a ↔ o = .ok a := by
  cases o <;> simp [Outcome.ofRule]

theorem wellFormed_declared {s : Session} (formed : s.context.WellFormed) {o : Outcome Context}
    (keeps : ∀ c, o = .ok c → Keeps s.context c) : (s.declared o).2.context.WellFormed := by
  cases o with
  | error f => exact formed
  | ok c => exact (keeps c rfl).wellFormed formed

/-- A step keeps the context well formed. -/
theorem wellFormed_step {s : Session} (formed : s.context.WellFormed) (step : SessionStep) :
    (s.step step).2.context.WellFormed := by
  cases step with
  | tree action source path =>
    cases source with
    | text src remember =>
      unfold Session.step
      dsimp only
      split
      · exact formed
      · exact wellFormed_actAt formed _ _ _ _
    | named name =>
      unfold Session.step
      dsimp only
      split
      · exact formed
      · exact wellFormed_actAt formed _ _ _ _
  | push name scope => exact formed.push scope
  | pop =>
    unfold Session.step
    dsimp only
    split
    · exact formed
    · exact formed.pop ‹_›
  | lookup name loc | resolve name loc =>
    unfold Session.step
    dsimp only
    split <;> exact formed
  | top | nearest variant | inspect scope => exact formed
  | declare scope name ty loc =>
    refine wellFormed_declared formed fun c hc => ?_
    exact .declare (ofRule_ok_iff.mp hc)
  | declareFunc scope name sig loc =>
    exact wellFormed_declared formed fun c hc => .declareFunc hc
  | entryPoint scope name loc =>
    refine wellFormed_declared formed fun c hc => ?_
    exact .setEntryPoint (ofRule_ok_iff.mp hc)

/-- The session behind some steps. -/
def after (s : Session) (steps : List SessionStep) : Session :=
  steps.foldl (fun s step => (s.step step).2) s

/-- The context of every session is well formed. -/
theorem wellFormed_after (debug : Bool) (steps : List SessionStep) :
    ((Session.initial debug).after steps).context.WellFormed := by
  have run : ∀ s : Session, s.context.WellFormed → (s.after steps).context.WellFormed := by
    induction steps with
    | nil => exact fun _ formed => formed
    | cons step rest ih => exact fun s formed => ih _ (wellFormed_step formed step)
  exact run _ .initial

/-- The context as a check leaves it: an expression does not touch it, a function and the
bodies of a program restore it, and so does a statement, accepted or not, unless it is a
variable declaration that is accepted. -/
theorem checks_restore {s : Session} (formed : s.context.WellFormed) (n : Node) :
    (s.act .checkExpression n).2.2.context = s.context ∧
    Restored s.context (s.act .checkFunction n).2.2.context ∧
    Restored s.context (s.act .checkBodies n).2.2.context ∧
    (n.kind ≠ .variableDeclaration ∨ (∃ d, (checkStatement s.context n).1 = .error (.user d)) →
      Restored s.context (s.act .checkStatement n).2.2.context) ∧
    (n.kind = .variableDeclaration → (checkStatement s.context n).1 = .ok () →
      ∃ name ty, n.binding? = some (name, ty) ∧
        Declares s.context (s.act .checkStatement n).2.2.context name ty) := by
  refine ⟨rfl, restored_of_frame formed (frame_checkFunction _ n),
    restored_of_frame formed (frame_checkBodies _ n), fun other => ?_,
    fun isDeclaration accepted => ?_⟩
  · change Restored s.context (checkStatement s.context n).2.2
    by_cases isDeclaration : n.kind = .variableDeclaration
    · obtain ⟨d, failed⟩ := other.resolve_left fun hne => hne isDeclaration
      rw [checkStatement_declaration isDeclaration] at failed ⊢
      obtain ⟨-, same⟩ | ⟨noDiagnostic, -⟩ := checkVariable_context s.context n
      · rw [same]
        exact restored_refl _
      · exact absurd failed (noDiagnostic d)
    · exact restored_of_frame formed (frame_checkStatementIn isDeclaration _)
  · change ∃ name ty, _ ∧ Declares s.context (checkStatement s.context n).2.2 name ty
    rw [checkStatement_declaration isDeclaration] at accepted ⊢
    obtain ⟨failed, -⟩ | ⟨-, top, name, ty, binds, isTop, isFunction, bound⟩ :=
      checkVariable_context s.context n
    · exact absurd accepted failed
    · rw [bound]
      exact ⟨name, ty, binds, declares_bind formed isTop isFunction name ty⟩

/-- A session in which the scope of a function is open. -/
def insideFunction : Session :=
  (Session.initial false).after [.push (utf8 "f") (.function (utf8 "F") .nowhere .int)]

/-- The statement `int x;`. -/
def declarationOfX : Node :=
  .branch .variableDeclaration .nowhere [.branch .int .nowhere [], .leaf .id (utf8 "x") .nowhere]

/-- The declaration of `x` in a function leaves the function with a variable `x`, and the same
statement is refused behind it and then changes nothing. -/
theorem checks_restore_twice :
    let behind := (insideFunction.act .checkStatement declarationOfX).2.2
    insideFunction.context.WellFormed ∧
      Declares insideFunction.context behind.context (utf8 "x") .int ∧
      Restored behind.context (behind.act .checkStatement declarationOfX).2.2.context := by
  intro behind
  have formed : insideFunction.context.WellFormed := wellFormed_after false _
  have hbehind : behind.context.WellFormed := wellFormed_act formed _ _
  have accepted : (checkStatement insideFunction.context declarationOfX).1 = .ok () := rfl
  have refused : (checkStatement behind.context declarationOfX).1 =
      .error (.user (.duplicateVariable (utf8 "x") .nowhere)) := rfl
  obtain ⟨-, -, -, -, declares⟩ := checks_restore formed declarationOfX
  obtain ⟨name, ty, binds, hdeclares⟩ := declares rfl accepted
  cases binds
  obtain ⟨-, -, -, restores, -⟩ := checks_restore hbehind declarationOfX
  exact ⟨formed, hdeclares, restores (.inr ⟨_, refused⟩)⟩

end Session

end TreeWat
