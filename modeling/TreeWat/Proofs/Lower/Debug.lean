import TreeWat.Proofs.Lower.Placement
import TreeWat.Proofs.Lower.Program
import TreeWat.Proofs.Wat.Comments
set_option autoImplicit false

/-!
# Lower: debug mode only adds comments

The debug setting is read in one place, behind the code of a top-level expression.  So
every lowering step without it is the step with it and the comments taken out of its
value: the literals and labels handed on are the same, and so is every failure.  There is
one equation per function, and each is put together by the rule for one step after
another.
-/

namespace TreeWat.Lower

open Wat (Code Op Instr uncommented)

/-- The environment with the debug setting off. -/
def Env.terse (env : Env) : Env :=
  { env with debug := false }

section Steps

variable {α α' β β' : Type}

/-- A map goes through a step if it goes through what follows the step. -/
theorem Step.mapped_bind {g : α → α'} {h : β → β'} {x : Step α} {k : α → Step β}
    {k' : α' → Step β'} (next : ∀ a, k' (g a) = h <$> k a) :
    (g <$> x) >>= k' = h <$> (x >>= k) := by
  simp only [bind_map_left, map_bind, next]

/-- A step that is the same in both modes. -/
theorem Step.mapped_bind_same {h : β → β'} {x : Step α} {k : α → Step β} {k' : α → Step β'}
    (next : ∀ a, k' a = h <$> k a) : x >>= k' = h <$> (x >>= k) := by
  rw [map_bind]
  exact bind_congr next

/-- A map leaves the state and a failure alone. -/
theorem Step.mapped_run (g : α → α') (x : Step α) (s : State) :
    (g <$> x) s = (x s).map (Prod.map g id) := by
  change StateT.map g x s = _
  unfold StateT.map
  rcases x s with f | ⟨a, s'⟩ <;> rfl

end Steps

/-! ## Expressions -/

@[simp] theorem uncommented_commented (env : Env) (n : Node) (code : Code) :
    uncommented (commented env n code) = uncommented code := by
  unfold commented
  split <;> simp

@[simp] theorem commented_terse (env : Env) (n : Node) (code : Code) :
    commented env.terse n code = code := rfl

@[simp] theorem uncommented_callCode (owner : Scope) (callee : Node) :
    uncommented (callCode owner callee) = callCode owner callee := by
  unfold callCode
  split <;> simp

/-- Without debug output the code of the expression is its code without comments. -/
def ExprTerse (env : Env) (n : Node) : Prop :=
  expression env.terse n = uncommented <$> expression env n

theorem arguments_terse {env : Env} {args : List Node} (each : ∀ a ∈ args, ExprTerse env a) :
    arguments env.terse args = uncommented <$> arguments env args := by
  induction args with
  | nil => simp [arguments]
  | cons a rest ih =>
    rw [arguments, arguments, each a List.mem_cons_self,
      ih fun b hb => each b (List.mem_cons_of_mem _ hb)]
    refine Step.mapped_bind fun code => ?_
    refine Step.mapped_bind fun more => ?_
    simp

section Expressions

variable {env : Env} {attr : Bytes} {loc : Location} {note : Option Annotation}
  {children : List Node}

theorem call_terse (each : ∀ list ∈ children, ∀ a ∈ list.children, ExprTerse env a) :
    ExprTerse env ⟨.functionInvocation, attr, loc, note, children⟩ := by
  unfold ExprTerse
  match children with
  | [] =>
    rw [expression, expression]
    rfl
  | [callee] =>
    rw [expression, expression]
    exact Step.mapped_bind_same fun _ => rfl
  | callee :: ⟨listKind, listAttr, listLoc, listNote, args⟩ :: rest =>
    have hargs : arguments env.terse args = _ :=
      arguments_terse (each ⟨listKind, listAttr, listLoc, listNote, args⟩ (by simp))
    rw [expression, expression]
    refine Step.mapped_bind_same fun owner => ?_
    split
    · cases args with
      | nil => rfl
      | cons literal others =>
        refine Step.mapped_bind_same fun place => ?_
        simp
    · rw [hargs]
      refine Step.mapped_bind fun code => ?_
      simp

theorem binary_terse {op : BinaryOp} (each : ∀ m ∈ children, ExprTerse env m) :
    ExprTerse env ⟨.binary op, attr, loc, note, children⟩ := by
  unfold ExprTerse
  match children with
  | [] =>
    rw [expression, expression]
    rfl
  | [l] =>
    rw [expression, expression]
    split
    · rfl
    · rw [each l (by simp)]
      exact Step.mapped_bind fun _ => rfl
  | l :: r :: rest =>
    have hl : expression env.terse l = _ := each l (by simp)
    have hr : expression env.terse r = _ := each r (by simp)
    rw [expression.eq_def, expression.eq_def]
    -- An assignment lowers its right side alone, every other operator both sides in order.
    cases op with
    | assign =>
      dsimp only
      rw [hr]
      refine Step.mapped_bind fun value => ?_
      refine Step.mapped_bind_same fun setting => ?_
      refine Step.mapped_bind_same fun getting => ?_
      simp
    | _ =>
      dsimp only
      rw [hl, hr]
      refine Step.mapped_bind fun left => ?_
      refine Step.mapped_bind fun right => ?_
      simp [arith?]

theorem unary_terse {op : UnaryOp} (each : ∀ m ∈ children, ExprTerse env m) :
    ExprTerse env ⟨.unary op, attr, loc, note, children⟩ := by
  unfold ExprTerse
  match children with
  | [] =>
    rw [expression, expression]
    rfl
  | e :: rest =>
    rw [expression, expression, each e (by simp)]
    refine Step.mapped_bind fun code => ?_
    cases op <;> simp

theorem expression_terse (env : Env) (n : Node) : ExprTerse env n := by
  induction n using Node.induction with
  | step n ih =>
    rcases n with ⟨kind, attr, loc, note, children⟩
    have child : ∀ m ∈ children, ExprTerse env m :=
      fun m hm => ih m (Node.mem_descendants_of_child hm)
    cases kind with
    | functionInvocation =>
      exact call_terse fun list hlist a ha => ih a (Node.mem_descendants_of_grandchild hlist ha)
    | binary op => exact binary_terse child
    | unary op => exact unary_terse child
    | id =>
      unfold ExprTerse
      rw [expression, expression]
      refine Step.mapped_bind_same fun op => ?_
      simp
    | num | trueLiteral | falseLiteral | string =>
      unfold ExprTerse
      simp [expression]
    | _ =>
      unfold ExprTerse
      rw [expression, expression]
      · rfl
      all_goals simp

end Expressions

theorem topExpression_terse (env : Env) (n : Node) :
    topExpression env.terse n = uncommented <$> topExpression env n := by
  unfold topExpression
  rw [expression_terse]
  refine Step.mapped_bind fun code => ?_
  simp

/-! ## Statements -/

@[simp] theorem uncommented_discarding (n : Node) (code : Code) :
    uncommented (discarding n code) = discarding n (uncommented code) := by
  unfold discarding
  split <;> simp

@[simp] theorem uncommented_whileLoop (num : Nat) (cond body again : Code) :
    (whileLoop num cond body again).uncommented
      = [whileLoop num (uncommented cond) (uncommented body) (uncommented again)] := by
  simp [whileLoop]

/-- Without debug output the code of the statement is its code without comments. -/
def StmtTerse (env : Env) (n : Node) : Prop :=
  ∀ loops : List Nat, statement env.terse loops n = uncommented <$> statement env loops n

theorem statements_terse {env : Env} {ss : List Node} (each : ∀ n ∈ ss, StmtTerse env n)
    (loops : List Nat) :
    statements env.terse loops ss = uncommented <$> statements env loops ss := by
  induction ss with
  | nil => simp [statements]
  | cons n rest ih =>
    have hrest := ih fun m hm => each m (List.mem_cons_of_mem _ hm)
    rw [statements, statements, each n List.mem_cons_self, hrest]
    refine Step.mapped_bind fun code => ?_
    refine Step.mapped_bind fun more => ?_
    simp

section Statements

variable {env : Env} {attr : Bytes} {loc : Location} {note : Option Annotation}
  {children : List Node}

theorem statementExpression_terse :
    StmtTerse env ⟨.statementExpression, attr, loc, note, children⟩ := by
  intro loops
  cases children with
  | nil =>
    rw [statement, statement]
    rfl
  | cons e rest =>
    rw [statement, statement, topExpression_terse]
    refine Step.mapped_bind fun code => ?_
    simp

theorem ifThen_terse (each : ∀ m ∈ children, StmtTerse env m) :
    StmtTerse env ⟨.ifThen, attr, loc, note, children⟩ := by
  intro loops
  match children with
  | [] =>
    rw [statement, statement]
    rfl
  | [cond] =>
    rw [statement, statement, topExpression_terse]
    exact Step.mapped_bind fun _ => rfl
  | cond :: arm :: rest =>
    rw [statement, statement, topExpression_terse, each arm (by simp)]
    refine Step.mapped_bind fun test => ?_
    refine Step.mapped_bind fun whenTrue => ?_
    simp

theorem ifElse_terse (each : ∀ m ∈ children, StmtTerse env m) :
    StmtTerse env ⟨.ifElse, attr, loc, note, children⟩ := by
  intro loops
  match children with
  | [] =>
    rw [statement, statement]
    rfl
  | [cond] =>
    rw [statement, statement, topExpression_terse]
    exact Step.mapped_bind fun _ => rfl
  | [cond, arm] =>
    rw [statement, statement, topExpression_terse, each arm (by simp)]
    refine Step.mapped_bind fun _ => ?_
    exact Step.mapped_bind fun _ => rfl
  | cond :: arm₁ :: arm₂ :: rest =>
    rw [statement, statement, topExpression_terse, each arm₁ (by simp), each arm₂ (by simp)]
    refine Step.mapped_bind fun test => ?_
    refine Step.mapped_bind fun whenTrue => ?_
    refine Step.mapped_bind fun whenFalse => ?_
    simp

theorem while_terse (each : ∀ m ∈ children, StmtTerse env m) :
    StmtTerse env ⟨.while, attr, loc, note, children⟩ := by
  intro loops
  match children with
  | [] =>
    rw [statement, statement]
    rfl
  | [cond] =>
    rw [statement, statement, topExpression_terse]
    exact Step.mapped_bind fun _ => rfl
  | cond :: body :: rest =>
    rw [statement, statement, topExpression_terse]
    refine Step.mapped_bind_same fun num => ?_
    refine Step.mapped_bind fun test => ?_
    rw [each body (by simp)]
    refine Step.mapped_bind fun code => ?_
    refine Step.mapped_bind fun again => ?_
    simp

theorem return_terse : StmtTerse env ⟨.return, attr, loc, note, children⟩ := by
  intro loops
  cases children with
  | nil => simp [statement]
  | cons value rest =>
    rw [statement, statement, topExpression_terse]
    refine Step.mapped_bind fun code => ?_
    simp

theorem statement_terse (env : Env) (n : Node) : StmtTerse env n := by
  induction n using Node.induction with
  | step n ih =>
    rcases n with ⟨kind, attr, loc, note, children⟩
    have child : ∀ m ∈ children, StmtTerse env m :=
      fun m hm => ih m (Node.mem_descendants_of_child hm)
    cases kind with
    | statementExpression => exact statementExpression_terse
    | ifThen => exact ifThen_terse child
    | ifElse => exact ifElse_terse child
    | «while» => exact while_terse child
    | «return» => exact return_terse
    | block =>
      intro loops
      rw [statement, statement]
      exact statements_terse child loops
    | functionInvocation =>
      intro loops
      rw [statement, statement, expression_terse]
      refine Step.mapped_bind fun code => ?_
      simp
    | variableDeclaration | nullStatement =>
      intro loops
      simp [statement]
    | «break» =>
      intro loops
      cases loops with
      | nil =>
        rw [statement, statement]
        rfl
      | cons num outer => simp [statement]
    | _ =>
      intro loops
      rw [statement, statement]
      · rfl
      all_goals simp

end Statements

/-! ## Functions and programs -/

theorem paramNames_terse (env : Env) (body : Node) (ps : List Node) :
    paramNames env.terse body ps = paramNames env body ps := by
  induction ps with
  | nil => rfl
  | cons p rest ih =>
    rw [paramNames, paramNames, ih]
    rfl

theorem functionNamed_terse (env : Env) (body result : Node) (ps : List Node) (name : Bytes) :
    functionNamed env.terse body result ps name
      = Wat.Func.uncommented <$> functionNamed env body result ps name := by
  unfold functionNamed
  rw [paramNames_terse, statement_terse]
  refine Step.mapped_bind_same fun names => ?_
  refine Step.mapped_bind_same fun owner => ?_
  split
  · rfl
  · refine Step.mapped_bind fun code => ?_
    rw [map_pure, Wat.Func.uncommented]
    split <;> simp

theorem function_terse (env : Env) (decl : Node) :
    function env.terse decl = Wat.Func.uncommented <$> function env decl := by
  rw [function_eq, function_eq]
  refine Step.mapped_bind_same fun body => ?_
  refine Step.mapped_bind_same fun result => ?_
  refine Step.mapped_bind_same fun params => ?_
  split
  · exact functionNamed_terse env body result [] entryName
  · refine Step.mapped_bind_same fun id => ?_
    refine Step.mapped_bind_same fun name => ?_
    exact functionNamed_terse env body result params.children name

/-- The declarations without the comments of their functions. -/
def Parts.uncommented (parts : Parts) : Parts :=
  { parts with funcs := parts.funcs.map Wat.Func.uncommented }

theorem declarations_terse (env : Env) (ds : List Node) :
    declarations env.terse ds = Parts.uncommented <$> declarations env ds := by
  induction ds with
  | nil => rfl
  | cons d rest ih =>
    rw [declarations, declarations, ih]
    split
    · rw [function_terse]
      refine Step.mapped_bind fun f => ?_
      exact Step.mapped_bind fun parts => rfl
    · rw [function_terse]
      refine Step.mapped_bind fun f => ?_
      exact Step.mapped_bind fun parts => rfl
    · refine Step.mapped_bind_same fun id => ?_
      refine Step.mapped_bind_same fun name => ?_
      exact Step.mapped_bind fun parts => rfl
    · rfl

/-- The runtime library is written without comments. -/
theorem libraryFuncs_terse (env : Env) :
    libraryFuncs env.terse = (List.map Wat.Func.uncommented) <$> libraryFuncs env := by
  unfold libraryFuncs
  refine Step.mapped_bind_same fun yes => ?_
  refine Step.mapped_bind_same fun no => ?_
  rfl

theorem moduleOf_terse (env : Env) (root : Node) :
    moduleOf env.terse root = Wat.Module.uncommented <$> moduleOf env root := by
  unfold moduleOf
  rw [libraryFuncs_terse, declarations_terse]
  refine Step.mapped_bind fun library => ?_
  refine Step.mapped_bind fun parts => ?_
  refine Step.mapped_bind_same fun s => ?_
  rw [map_pure, Wat.Module.uncommented, List.map_append]
  rfl

/-- Lowering without debug output ends as lowering with it does, and a module is the
module without its comments. -/
theorem program_terse (env : Env) (root : Node) :
    program env.terse root = (program env root).map Wat.Module.uncommented := by
  unfold program
  rw [moduleOf_terse, Step.mapped_run]
  rcases moduleOf env root .initial with f | ⟨m, s⟩ <;> rfl

/-- An accepted program has a module in either mode, and the one of debug mode is the
other with comments added. -/
theorem debug_adds_comments {root : Node} {checked : Check.CheckedProgram}
    (accepted : Check.checkProgram root = .ok checked) :
    ∃ m, program ⟨checked.scopes, true⟩ checked.tree = .ok m ∧
      program ⟨checked.scopes, false⟩ checked.tree = .ok m.uncommented := by
  obtain ⟨m, hm⟩ := program_of_checkProgram accepted true
  refine ⟨m, hm, ?_⟩
  have terse : program ⟨checked.scopes, false⟩ checked.tree = _ :=
    program_terse ⟨checked.scopes, true⟩ checked.tree
  rw [terse, hm]
  rfl

/-- The sample program in both modes.  Its condition of a loop is shown twice and its
arguments before the calls that take them, twenty comments in all. -/
theorem debug_adds_comments_sample :
    ∃ checked m, Check.checkProgram sampleProgram = .ok checked ∧
      program ⟨checked.scopes, true⟩ checked.tree = .ok m ∧
      program ⟨checked.scopes, false⟩ checked.tree = .ok m.uncommented ∧
      m.comments.length = 20 := by
  obtain ⟨checked, accepted⟩ := sampleProgram_accepted
  obtain ⟨m, hdebug, hplain⟩ := debug_adds_comments accepted
  refine ⟨checked, m, accepted, hdebug, hplain, ?_⟩
  have shown : (match Check.checkProgram sampleProgram with
      | .ok checked => (match program ⟨checked.scopes, true⟩ checked.tree with
        | .ok m => m.comments.length
        | .error _ => 0)
      | .error _ => 0) = 20 := by decide +kernel
  rw [accepted] at shown
  dsimp only at shown
  rw [hdebug] at shown
  exact shown

end TreeWat.Lower
