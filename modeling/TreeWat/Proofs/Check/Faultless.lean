import TreeWat.Proofs.Check.Function
import TreeWat.Proofs.Check.Questions
set_option autoImplicit false

/-!
# Check: the checker is never at fault

A fault is a step outside its preconditions: a declaration when no scope is open, or
a function declared in a local scope.  The checker keeps these preconditions on
every tree, however malformed, so that a check that fails blames the user's program
or the front end.  A breach of the layout of trees it states in the names of kinds.
-/

namespace TreeWat.Check

/-- The step kept its preconditions, whether or not it succeeded. -/
def Faultless {α : Type} (o : Outcome α) : Prop :=
  ∀ f, o ≠ .error (.fault f)

/-- The step ends in a complaint, if it fails. -/
def Complains {α : Type} (o : Outcome α) : Prop :=
  ∀ f, o = .error f → f.IsComplaint

theorem Complains.faultless {α : Type} {o : Outcome α} (h : Complains o) : Faultless o :=
  fun _ heq => h _ heq

@[simp] theorem complains_ok {α : Type} (a : α) : Complains (.ok a : Outcome α) := by
  intro f h
  cases h

@[simp] theorem complains_error {α : Type} {f : Failure} :
    Complains (.error f : Outcome α) ↔ f.IsComplaint := by
  simp [Complains]

@[simp] theorem isComplaint_user (d : Diagnostic) : (Failure.user d).IsComplaint :=
  trivial

@[simp] theorem isComplaint_malformed {n : Node} {cause : ShapeCause} :
    (Failure.shape (n.malformed cause)).IsComplaint ↔ cause.NamesKinds :=
  Iff.rfl

@[simp] theorem isComplaint_mismatch (n : Node) (want : Bytes) : (mismatch n want).IsComplaint :=
  trivial

/-- A failure passed on keeps its blame. -/
theorem Complains.pass {α β : Type} {f : Failure} (h : Complains (.error f : Outcome α)) :
    Complains (.error f : Outcome β) :=
  complains_error.mpr (complains_error.mp h)

theorem Complains.of_eq {α β γ : Type} {p : Outcome α × γ} {f : Failure} {x : γ}
    (h : Complains p.1) (heq : p = (.error f, x)) : Complains (.error f : Outcome β) := by
  subst heq
  exact h.pass

theorem complains_bind {α β : Type} {o : Outcome α} {g : α → Outcome β} (h : Complains o)
    (hg : ∀ a, Complains (g a)) : Complains (o >>= g) := by
  cases o with
  | error f => exact h.pass
  | ok a => exact hg a

/-- A question about the layout of a tree blames nothing but the layout. -/
theorem complains_of_asks {α : Type} {x : Except ShapeError α} (h : Asks x) :
    Complains (Outcome.ofShape x) := by
  cases x with
  | error e => exact complains_error.mpr (h e rfl).namesKinds
  | ok a => exact complains_ok a

theorem Asks.complains {α β : Type} {x : Except ShapeError α} {e : ShapeError} (h : Asks x)
    (heq : x = .error e) : Complains (.error (.shape e) : Outcome β) :=
  complains_error.mpr (h e heq).namesKinds

theorem complains_annotate {β : Type} {n : Node} {sig : Bytes} {scope : Option ScopeId}
    {e : ShapeError} (heq : n.annotate sig scope = .error e) :
    Complains (.error (.shape e) : Outcome β) := by
  obtain ⟨a, -, rfl⟩ := Node.annotate_error_iff.mp heq
  simp

/-! ## Expressions -/

theorem complains_conclude (n : Node) (ty : Ty) (scope : Option ScopeId) :
    Complains (conclude n ty scope).1 := by
  unfold conclude
  split
  · exact complains_annotate ‹_›
  · simp

theorem complains_concludeCall (c : Context) (n callee argList : Node) (args : List Node)
    (tys : List Ty) : Complains (concludeCall c n callee argList args tys).1 := by
  unfold concludeCall
  split
  · simp
  · split
    · simp
    · split
      · simp
      · split
        · exact complains_annotate ‹_›
        · exact complains_conclude _ _ _

theorem complains_checkExpressions {c : Context} {args : List Node}
    (each : ∀ a ∈ args, Complains (checkExpression c a).1) :
    Complains (checkExpressions c args).1 := by
  induction args with
  | nil => simp [checkExpressions]
  | cons a rest ih =>
    have ha := each a List.mem_cons_self
    have hrest := ih fun b hb => each b (List.mem_cons_of_mem _ hb)
    rw [checkExpressions]
    split
    · exact ha.of_eq ‹_›
    · split
      · exact hrest.of_eq ‹_›
      · simp

theorem complains_checkExpression {c : Context} {n : Node} :
    Complains (checkExpression c n).1 := by
  induction n using Node.induction with
  | step n ih =>
    rcases n with ⟨kind, attr, loc, note, children⟩
    rw [checkExpression.eq_def]
    dsimp only
    split
    · split
      · simp
      · exact complains_conclude _ _ _
    · exact complains_conclude _ _ _
    · exact complains_conclude _ _ _
    · exact complains_conclude _ _ _
    · exact complains_conclude _ _ _
    · split
      · rename_i callee listKind listAttr listLoc listNote args
        have hargs : Complains (checkExpressions c args).1 := by
          exact complains_checkExpressions fun a ha => ih a (Node.mem_descendants_of_argument ha)
        split
        · simp
        · split
          · simp
          · split
            · exact hargs.of_eq ‹_›
            · exact complains_concludeCall _ _ _ _ _ _
      · simp
    · rename_i op
      split
      · rename_i l r
        have hl := ih l (Node.mem_descendants_of_child (by simp))
        have hr := ih r (Node.mem_descendants_of_child (by simp))
        split
        · simp
        · split
          · exact hl.of_eq ‹_›
          · split
            · exact hr.of_eq ‹_›
            · split
              · simp
              · simp
              · exact complains_conclude _ _ _
      · simp
    · rename_i op
      split
      · rename_i e
        have he := ih e (Node.mem_descendants_of_child (by simp))
        split
        · exact he.of_eq ‹_›
        · split
          · simp
          · exact complains_conclude _ _ _
      · simp
    · simp

/-! ## Statements -/

theorem complains_checkCondition {c : Context} {cond : Node} :
    Complains (checkCondition c cond).1 := by
  unfold checkCondition
  split
  · exact complains_checkExpression.of_eq ‹_›
  · split <;> simp

theorem complains_checkReturn {c : Context} {n : Node} : Complains (checkReturn c n).1 := by
  unfold checkReturn
  split
  · simp
  · dsimp only
    split
    · split <;> simp
    · split
      · simp
      · split
        · exact complains_checkExpression.of_eq ‹_›
        · split <;> simp
      · simp

theorem complains_checkBreak {c : Context} {n : Node} : Complains (checkBreak c n).1 := by
  unfold checkBreak
  split
  · simp
  · split
    · simp
    · split
      · exact complains_annotate ‹_›
      · simp

/-- A declaration needs an open scope. -/
theorem complains_checkVariable {c : Context} (isOpen : c.stack ≠ []) {n : Node} :
    Complains (checkVariable c n).1 := by
  unfold checkVariable
  split
  · exact (asks_typedName n).complains ‹_›
  · split
    · rename_i htop
      exact absurd (List.head?_eq_none_iff.mp htop) isOpen
    · split
      · simp
      · split
        · simp
        · split
          · exact complains_annotate ‹_›
          · simp

theorem complains_checkStatements {ss : List Node}
    (each : ∀ n ∈ ss, ∀ {own : Option ScopeId} {c : Context}, c.stack ≠ [] →
      Complains (checkStatementIn own c n).1)
    {c : Context} (isOpen : c.stack ≠ []) : Complains (checkStatements c ss).1 := by
  induction ss generalizing c with
  | nil => simp [checkStatements]
  | cons n rest ih =>
    rw [checkStatements]
    split
    · exact (each n List.mem_cons_self isOpen).of_eq ‹_›
    · rename_i n' c₁ hn
      have hstack := stack_checkStatementIn none c n
      rw [hn] at hstack
      exact ih (fun m hm => each m (List.mem_cons_of_mem _ hm)) (by rwa [hstack])

theorem complains_checkStatementIn {n : Node} :
    ∀ {own : Option ScopeId} {c : Context}, c.stack ≠ [] →
      Complains (checkStatementIn own c n).1 := by
  induction n using Node.induction with
  | step n ih =>
    intro own c isOpen
    rcases n with ⟨kind, attr, loc, note, children⟩
    have child : ∀ {m : Node}, m ∈ children →
        m ∈ (⟨kind, attr, loc, note, children⟩ : Node).descendants :=
      fun hm => Node.mem_descendants_of_child hm
    have entered : ∀ make : Bytes → Scope, (c.enter make).1.stack ≠ [] := by
      intro make
      simp [Context.enter, Context.push]
    rw [checkStatementIn.eq_def]
    dsimp only
    split
    · split
      · exact complains_annotate ‹_›
      · refine complains_checkStatements (fun m hm => ih m (child hm)) ?_
        cases own with
        | some id => exact isOpen
        | none => exact entered _
    · exact complains_checkVariable isOpen
    · split
      · split
        · exact complains_checkExpression.of_eq ‹_›
        · simp
      · simp
    · split
      · exact complains_checkExpression.of_eq ‹_›
      · simp
    · simp
    · split
      · split
        · exact complains_checkCondition.of_eq ‹_›
        · exact ih _ (child (by simp)) (entered _)
      · simp
    · split
      · rename_i cond arm₁ arm₂
        split
        · exact complains_checkCondition.of_eq ‹_›
        · split
          · exact (ih arm₁ (child (by simp)) (entered _)).of_eq ‹_›
          · refine ih arm₂ (child (by simp)) ?_
            simp [Context.enter, Context.push]
      · simp
    · split
      · split
        · exact complains_checkCondition.of_eq ‹_›
        · exact ih _ (child (by simp)) (entered _)
      · simp
    · exact complains_checkReturn
    · exact complains_checkBreak
    · simp

/-! ## Functions -/

theorem complains_checkParameter {fn : ScopeId} {c : Context} {p : Node} :
    Complains (checkParameter fn c p).1 := by
  unfold checkParameter
  split
  · exact (asks_expect p _).complains ‹_›
  · split
    · exact (asks_typedName p).complains ‹_›
    · split
      · simp
      · split
        · exact complains_annotate ‹_›
        · simp

theorem complains_checkParameters {fn : ScopeId} {c : Context} {ps : List Node} :
    Complains (checkParameters fn c ps).1 := by
  induction ps generalizing c with
  | nil => simp [checkParameters]
  | cons p rest ih =>
    rw [checkParameters]
    split
    · exact complains_checkParameter.of_eq ‹_›
    · exact ih

theorem complains_checkFunction {c : Context} (h : Between c) {fn : Node} :
    Complains (checkFunction c fn).1 := by
  unfold checkFunction
  split
  · split
    · simp
    · split
      · exact (asks_typeOf _).complains ‹_›
      · rename_i result _
        dsimp only
        split
        · simp
        · split
          · exact complains_checkParameters.of_eq ‹_›
          · rename_i ps' c₁ hparams
            obtain ⟨params, -, -, -, -, hin, -⟩ :=
              checkParameters_run (h.enter fn.loc result) (by simp [Context.names]) hparams
            unfold checkFunctionBody
            split
            · exact complains_annotate ‹_›
            · refine complains_checkStatements (fun m _ => complains_checkStatementIn) ?_
              rw [hin.stack]
              simp
  · simp

theorem complains_checkBodiesOf {c : Context} (h : Between c) {ds : List Node} :
    Complains (checkBodiesOf c ds).1 := by
  induction ds generalizing c with
  | nil => simp [checkBodiesOf]
  | cons d rest ih =>
    rw [checkBodiesOf]
    split
    · split
      · exact (complains_checkFunction h).of_eq ‹_›
      · exact ih (h.of_frame (checkFunction_frame h ‹_›))
    · exact ih h

/-! ## Programs -/

theorem complains_noteName (c : Context) (decl id : Node) (sig : Bytes) :
    Complains (noteName c decl id sig).1 := by
  unfold noteName
  split
  · exact complains_annotate ‹_›
  · simp

theorem complains_declareFunc {c : Context} (h : Collected c) (name : Bytes) (sig : Signature)
    (loc : Location) : Complains (c.declareFunc .globals name sig loc) := by
  unfold Context.declareFunc
  rw [if_pos (by simp [Scopes.get, Scope.isGlobalStorage, h.globalVariant])]
  split <;> simp

theorem complains_collectDeclaration {c : Context} (h : Collected c) {d : Node} :
    Complains (collectDeclaration c d).1 := by
  unfold collectDeclaration
  split
  · split
    · exact (asks_entryPointHead d).complains ‹_›
    · split
      · simp
      · exact complains_noteName _ _ _ _
  · split
    · exact (asks_functionHead d).complains ‹_›
    · rename_i id sig _
      split
      · rename_i f hdeclare
        have hcomplains := complains_declareFunc h id.attr sig id.loc
        rw [hdeclare] at hcomplains
        exact hcomplains.pass
      · exact complains_noteName _ _ _ _
  · split
    · exact (asks_typedName d).complains ‹_›
    · split
      · simp
      · exact complains_noteName _ _ _ _
  · simp

theorem complains_collectDeclarations {c : Context} (h : Collected c) {ds : List Node} :
    Complains (collectDeclarations c ds).1 := by
  induction ds generalizing c with
  | nil => simp [collectDeclarations]
  | cons d rest ih =>
    rw [collectDeclarations]
    split
    · exact (complains_collectDeclaration h).of_eq ‹_›
    · exact ih (h.step (.of_collectDeclaration ‹_›))

theorem complains_collectGlobals {root : Node} : Complains (collectGlobals .initial root).1 := by
  unfold collectGlobals
  split
  · exact (asks_expect root _).complains ‹_›
  · split
    · exact (complains_collectDeclarations Collected.initial).of_eq ‹_›
    · split <;> simp

theorem complains_checkReturns {scopes : Scopes} {d : Node} :
    Complains (checkReturns scopes d) := by
  unfold checkReturns
  split
  · refine complains_bind (complains_of_asks ((asks_child d 0).bind asks_typeOf))
      fun result => ?_
    split
    · simp
    · refine complains_bind (complains_of_asks ((asks_child d 3).bind (asks_exitOf scopes)))
        fun exit => ?_
      split
      · simp
      · exact complains_bind (complains_of_asks (asks_child d 1)) fun id => by simp
  · simp

theorem complains_checkAllReturns {scopes : Scopes} {ds : List Node} :
    Complains (ds.forM (checkReturns scopes)) := by
  induction ds with
  | nil => exact complains_ok ()
  | cons d rest ih => exact complains_bind complains_checkReturns fun _ => ih

/-- Checking a program ends in success or in a complaint. -/
theorem complains_checkProgram (root : Node) : Complains (checkProgram root) := by
  unfold checkProgram checkProgramIn
  rcases hcollect : collectGlobals .initial root with ⟨_ | ⟨⟩, root', c⟩
  · exact complains_collectGlobals.of_eq hcollect
  · have hbetween := (Collected.of_collectGlobals hcollect).toBetween
    dsimp only
    unfold checkBodies
    rcases hbodies : checkBodiesOf c root'.children with ⟨_ | ⟨⟩, ds, c'⟩
    · exact (complains_checkBodiesOf hbetween).of_eq hbodies
    · dsimp only
      have hreturns : Complains (checkAllReturns c'.scopes { root' with children := ds }) :=
        complains_checkAllReturns
      cases hall : checkAllReturns c'.scopes { root' with children := ds } with
      | error e =>
        rw [hall] at hreturns
        exact hreturns.pass
      | ok u => simp

/-- Checking a program ends in success, in a diagnostic or in a shape error. -/
theorem faultless_checkProgram (root : Node) : Faultless (checkProgram root) :=
  (complains_checkProgram root).faultless

end TreeWat.Check
