import TreeWat.Lower.Program
import TreeWat.Proofs.Placement
set_option autoImplicit false

/-!
# Lower: locations are carried along

Lowering reads kinds, texts and notes, and names what it stores by the tags of scopes.  As
for the checker, taking the locations out commutes with every function, and the code of a
tree without locations is the code of the tree.
-/

namespace TreeWat.Lower

open Wat (Code Op Instr)

/-- The environment without the places where scopes begin. -/
def Env.unplaced (env : Env) : Env :=
  { env with scopes := env.scopes.unplaced }

section Steps

variable {α β : Type}

/-- The step with its value mapped, and without the location of its failure. -/
def Step.unplaced (onValue : α → α) (x : Step α) : Step α :=
  fun s => mapEnds Failure.unplaced (Prod.map onValue id) (x s)

@[simp] theorem Step.unplaced_pure (g : α → α) (a : α) :
    Step.unplaced g (pure a) = pure (g a) := rfl

@[simp] theorem Step.unplaced_fault (g : α → α) (f : Fault) :
    Step.unplaced g (fault f) = fault f := rfl

/-- Taking out locations goes through a step if it goes through what follows the step. -/
theorem Step.unplaced_bind {g : α → α} {h : β → β} {x : Step α} {k k' : α → Step β}
    (next : ∀ a, k' (g a) = Step.unplaced h (k a)) :
    Step.unplaced g x >>= k' = Step.unplaced h (x >>= k) := by
  funext s
  exact mapEnds_bind fun ⟨a, s'⟩ => congrFun (next a) s'

@[simp] theorem malformed_unplaced (g : α → α) (n : Node) (cause : ShapeCause) :
    (malformed n.unplaced cause : Step α) = Step.unplaced g (malformed n cause) := by
  unfold malformed
  rw [Node.malformed_unplaced]
  rfl

end Steps

theorem ownerOf_unplaced (env : Env) (id : Node) :
    ownerOf env.unplaced id.unplaced = Step.unplaced Scope.unplaced (ownerOf env id) := by
  unfold ownerOf
  rw [Node.scope?_unplaced]
  cases id.scope? with
  | none => rfl
  | some s => simp [Env.unplaced]

theorem load_unplaced (env : Env) (n : Node) :
    load env.unplaced n.unplaced = Step.unplaced id (load env n) := by
  unfold load
  rw [ownerOf_unplaced]
  refine Step.unplaced_bind fun owner => ?_
  simp

theorem store_unplaced (env : Env) (n : Node) :
    store env.unplaced n.unplaced = Step.unplaced id (store env n) := by
  unfold store
  rw [ownerOf_unplaced]
  refine Step.unplaced_bind fun owner => ?_
  simp

@[simp] theorem commented_unplaced (env : Env) (n : Node) (code : Code) :
    commented env.unplaced n.unplaced code = commented env n code := by
  simp [commented, Env.unplaced]

@[simp] theorem callCode_unplaced (owner : Scope) (callee : Node) :
    callCode owner.unplaced callee.unplaced = callCode owner callee := by
  simp [callCode]

/-! ## Expressions -/

/-- The code of the expression goes through taking out locations. -/
def ExprUnplaces (env : Env) (n : Node) : Prop :=
  expression env.unplaced n.unplaced = Step.unplaced id (expression env n)

theorem arguments_unplaced {env : Env} {args : List Node}
    (each : ∀ a ∈ args, ExprUnplaces env a) :
    arguments env.unplaced (args.map Node.unplaced) = Step.unplaced id (arguments env args) := by
  induction args with
  | nil => simp [arguments]
  | cons a rest ih =>
    have hrest := ih fun b hb => each b (List.mem_cons_of_mem _ hb)
    rw [List.map_cons, arguments, arguments, each a List.mem_cons_self]
    refine Step.unplaced_bind fun code => ?_
    rw [hrest]
    refine Step.unplaced_bind fun more => ?_
    simp

section Expressions

-- opened at a node of known kind
attribute [local simp] expression

variable {env : Env} {attr : Bytes} {loc : Location} {note : Option Annotation}
  {children : List Node}

theorem call_unplaces (each : ∀ list ∈ children, ∀ a ∈ list.children, ExprUnplaces env a) :
    ExprUnplaces env ⟨.functionInvocation, attr, loc, note, children⟩ := by
  have broken := malformed_unplaced (α := Code) id ⟨.functionInvocation, attr, loc, note, children⟩
  unfold ExprUnplaces
  rw [Node.unplaced_mk] at *
  match children with
  | [] =>
    rw [List.map_nil, expression, expression]
    exact broken _
  | [callee] =>
    rw [List.map_cons, List.map_nil, expression, expression, ownerOf_unplaced]
    exact Step.unplaced_bind fun _ => broken _
  | callee :: ⟨listKind, listAttr, listLoc, listNote, args⟩ :: rest =>
    have hargs : arguments env.unplaced (args.map Node.unplaced)
        = Step.unplaced id (arguments env args) :=
      arguments_unplaced (each _ (List.mem_cons_of_mem _ List.mem_cons_self))
    simp only [List.map_cons, Node.unplaced_mk]
    rw [expression, expression, ownerOf_unplaced]
    refine Step.unplaced_bind fun owner => ?_
    have hparams : calleeParams owner.unplaced callee.unplaced.attr
        = calleeParams owner callee.attr := by
      simp [calleeParams]
    rw [hparams]
    split
    · cases args with
      | nil => rfl
      | cons literal others =>
        simp only [List.map_cons, Node.attr_unplaced, callCode_unplaced]
        refine Step.unplaced_bind (g := id) (x := intern literal.attr) fun place => ?_
        rfl
    · rw [hargs]
      refine Step.unplaced_bind fun code => ?_
      simp

theorem binary_unplaces {op : BinaryOp} (each : ∀ m ∈ children, ExprUnplaces env m) :
    ExprUnplaces env ⟨.binary op, attr, loc, note, children⟩ := by
  have broken := malformed_unplaced (α := Code) id ⟨.binary op, attr, loc, note, children⟩
  unfold ExprUnplaces
  rw [Node.unplaced_mk] at *
  match children with
  | [] =>
    rw [List.map_nil, expression, expression]
    exact broken _
  | [l] =>
    rw [List.map_cons, List.map_nil, expression, expression]
    split
    · exact broken _
    · rw [each l (by simp)]
      exact Step.unplaced_bind fun _ => broken _
  | l :: r :: rest =>
    have hl : expression env.unplaced l.unplaced = _ := each l (by simp)
    have hr : expression env.unplaced r.unplaced = _ := each r (by simp)
    rw [List.map_cons, List.map_cons, expression.eq_def, expression.eq_def]
    -- An assignment lowers its right side alone, every other operator both sides in order.
    cases op with
    | assign =>
      dsimp only
      rw [hr, store_unplaced, load_unplaced]
      refine Step.unplaced_bind fun value => ?_
      refine Step.unplaced_bind fun setting => ?_
      exact Step.unplaced_bind fun getting => rfl
    | _ =>
      dsimp only
      rw [hl, hr]
      refine Step.unplaced_bind fun left => ?_
      exact Step.unplaced_bind fun right => rfl

theorem unary_unplaces {op : UnaryOp} (each : ∀ m ∈ children, ExprUnplaces env m) :
    ExprUnplaces env ⟨.unary op, attr, loc, note, children⟩ := by
  have broken := malformed_unplaced (α := Code) id ⟨.unary op, attr, loc, note, children⟩
  unfold ExprUnplaces
  rw [Node.unplaced_mk] at *
  match children with
  | [] =>
    rw [List.map_nil, expression, expression]
    exact broken _
  | e :: rest =>
    rw [List.map_cons, expression, expression, each e (by simp)]
    refine Step.unplaced_bind fun code => ?_
    cases op <;> rfl

theorem expression_unplaced (env : Env) (n : Node) : ExprUnplaces env n := by
  induction n using Node.induction with
  | step n ih =>
    rcases n with ⟨kind, attr, loc, note, children⟩
    have child : ∀ m ∈ children, ExprUnplaces env m :=
      fun m hm => ih m (Node.mem_descendants_of_child hm)
    have broken := malformed_unplaced (α := Code) id ⟨kind, attr, loc, note, children⟩
    cases kind with
    | functionInvocation =>
      exact call_unplaces fun list hlist a ha => ih a (Node.mem_descendants_of_grandchild hlist ha)
    | binary op => exact binary_unplaces child
    | unary op => exact unary_unplaces child
    | id =>
      have loaded := load_unplaced env ⟨.id, attr, loc, note, children⟩
      unfold ExprUnplaces
      rw [Node.unplaced_mk] at *
      rw [expression, expression, loaded]
      exact Step.unplaced_bind fun op => rfl
    | num | trueLiteral | falseLiteral | string =>
      unfold ExprUnplaces
      rw [Node.unplaced_mk]
      simp
    | _ =>
      unfold ExprUnplaces
      rw [Node.unplaced_mk] at *
      rw [expression, expression]
      · exact broken _
      all_goals simp

end Expressions

theorem topExpression_unplaced (env : Env) (n : Node) :
    topExpression env.unplaced n.unplaced = Step.unplaced id (topExpression env n) := by
  unfold topExpression
  rw [expression_unplaced]
  refine Step.unplaced_bind fun code => ?_
  simp

/-! ## Statements -/

@[simp] theorem discarding_unplaced (n : Node) (code : Code) :
    discarding n.unplaced code = discarding n code := by
  simp [discarding, producesValue]

/-- The code of the statement goes through taking out locations. -/
def StmtUnplaces (env : Env) (n : Node) : Prop :=
  ∀ loops : List Nat,
    statement env.unplaced loops n.unplaced = Step.unplaced id (statement env loops n)

theorem statements_unplaced {env : Env} {ss : List Node} (each : ∀ n ∈ ss, StmtUnplaces env n)
    (loops : List Nat) : statements env.unplaced loops (ss.map Node.unplaced)
      = Step.unplaced id (statements env loops ss) := by
  induction ss with
  | nil => simp [statements]
  | cons n rest ih =>
    have hrest := ih fun m hm => each m (List.mem_cons_of_mem _ hm)
    rw [List.map_cons, statements, statements, each n List.mem_cons_self, hrest]
    refine Step.unplaced_bind fun code => ?_
    exact Step.unplaced_bind fun more => rfl

section Statements

-- opened at a node of known kind
attribute [local simp] statement

variable {env : Env} {attr : Bytes} {loc : Location} {note : Option Annotation}
  {children : List Node}

theorem statementExpression_unplaces :
    StmtUnplaces env ⟨.statementExpression, attr, loc, note, children⟩ := by
  intro loops
  have broken := malformed_unplaced (α := Code) id ⟨.statementExpression, attr, loc, note, children⟩
  rw [Node.unplaced_mk] at *
  match children with
  | [] =>
    rw [List.map_nil, statement, statement]
    exact broken _
  | e :: rest =>
    rw [List.map_cons, statement, statement, topExpression_unplaced]
    refine Step.unplaced_bind fun code => ?_
    simp

theorem ifThen_unplaces (each : ∀ m ∈ children, StmtUnplaces env m) :
    StmtUnplaces env ⟨.ifThen, attr, loc, note, children⟩ := by
  intro loops
  have broken := malformed_unplaced (α := Code) id ⟨.ifThen, attr, loc, note, children⟩
  rw [Node.unplaced_mk] at *
  match children with
  | [] =>
    rw [List.map_nil, statement, statement]
    exact broken _
  | [cond] =>
    rw [List.map_cons, List.map_nil, statement, statement, topExpression_unplaced]
    exact Step.unplaced_bind fun _ => broken _
  | cond :: arm :: rest =>
    rw [List.map_cons, List.map_cons, statement, statement, topExpression_unplaced,
      each arm (by simp)]
    refine Step.unplaced_bind fun test => ?_
    exact Step.unplaced_bind fun whenTrue => rfl

theorem ifElse_unplaces (each : ∀ m ∈ children, StmtUnplaces env m) :
    StmtUnplaces env ⟨.ifElse, attr, loc, note, children⟩ := by
  intro loops
  have broken := malformed_unplaced (α := Code) id ⟨.ifElse, attr, loc, note, children⟩
  rw [Node.unplaced_mk] at *
  match children with
  | [] =>
    rw [List.map_nil, statement, statement]
    exact broken _
  | [cond] =>
    rw [List.map_cons, List.map_nil, statement, statement, topExpression_unplaced]
    exact Step.unplaced_bind fun _ => broken _
  | [cond, arm] =>
    rw [List.map_cons, List.map_cons, List.map_nil, statement, statement,
      topExpression_unplaced, each arm (by simp)]
    refine Step.unplaced_bind fun _ => ?_
    exact Step.unplaced_bind fun _ => broken _
  | cond :: arm₁ :: arm₂ :: rest =>
    rw [List.map_cons, List.map_cons, List.map_cons, statement, statement,
      topExpression_unplaced, each arm₁ (by simp), each arm₂ (by simp)]
    refine Step.unplaced_bind fun test => ?_
    refine Step.unplaced_bind fun whenTrue => ?_
    exact Step.unplaced_bind fun whenFalse => rfl

theorem while_unplaces (each : ∀ m ∈ children, StmtUnplaces env m) :
    StmtUnplaces env ⟨.while, attr, loc, note, children⟩ := by
  intro loops
  have broken := malformed_unplaced (α := Code) id ⟨.while, attr, loc, note, children⟩
  rw [Node.unplaced_mk] at *
  match children with
  | [] =>
    rw [List.map_nil, statement, statement]
    exact broken _
  | [cond] =>
    rw [List.map_cons, List.map_nil, statement, statement, topExpression_unplaced]
    exact Step.unplaced_bind fun _ => broken _
  | cond :: body :: rest =>
    rw [List.map_cons, List.map_cons, statement, statement, topExpression_unplaced]
    refine Step.unplaced_bind (g := id) (x := freshLabel) fun num => ?_
    refine Step.unplaced_bind fun test => ?_
    rw [each body (by simp)]
    refine Step.unplaced_bind fun code => ?_
    exact Step.unplaced_bind fun again => rfl

theorem return_unplaces : StmtUnplaces env ⟨.return, attr, loc, note, children⟩ := by
  intro loops
  rw [Node.unplaced_mk]
  cases children with
  | nil => simp
  | cons value rest =>
    rw [List.map_cons, statement, statement, topExpression_unplaced]
    exact Step.unplaced_bind fun code => rfl

theorem statement_unplaced (env : Env) (n : Node) : StmtUnplaces env n := by
  induction n using Node.induction with
  | step n ih =>
    rcases n with ⟨kind, attr, loc, note, children⟩
    have child : ∀ m ∈ children, StmtUnplaces env m :=
      fun m hm => ih m (Node.mem_descendants_of_child hm)
    have broken := malformed_unplaced (α := Code) id ⟨kind, attr, loc, note, children⟩
    cases kind with
    | statementExpression => exact statementExpression_unplaces
    | ifThen => exact ifThen_unplaces child
    | ifElse => exact ifElse_unplaces child
    | «while» => exact while_unplaces child
    | «return» => exact return_unplaces
    | block =>
      intro loops
      rw [Node.unplaced_mk, statement, statement]
      exact statements_unplaced child loops
    | functionInvocation =>
      intro loops
      have called : ExprUnplaces env ⟨.functionInvocation, attr, loc, note, children⟩ :=
        expression_unplaced env _
      have discarded := discarding_unplaced ⟨.functionInvocation, attr, loc, note, children⟩
      unfold ExprUnplaces at called
      rw [Node.unplaced_mk] at *
      rw [statement, statement, called]
      refine Step.unplaced_bind fun code => ?_
      rw [id_eq, discarded]
      rfl
    | variableDeclaration | nullStatement =>
      intro loops
      rw [Node.unplaced_mk]
      simp
    | «break» =>
      intro loops
      rw [Node.unplaced_mk]
      cases loops <;> simp
    | _ =>
      intro loops
      rw [Node.unplaced_mk] at *
      rw [statement, statement]
      · exact broken _
      all_goals simp

end Statements

/-! ## Functions and programs -/

theorem childOf_unplaced (n : Node) (i : Nat) :
    childOf n.unplaced i = Step.unplaced Node.unplaced (childOf n i) := by
  unfold childOf
  rw [Node.child_unplaced]
  cases n.child i <;> rfl

theorem storageName_unplaced (env : Env) (name : Node) :
    storageName env.unplaced name.unplaced = Step.unplaced id (storageName env name) := by
  unfold storageName
  rw [ownerOf_unplaced]
  refine Step.unplaced_bind fun owner => ?_
  simp

theorem paramNames_unplaced (env : Env) (body : Node) (ps : List Node) :
    paramNames env.unplaced body.unplaced (ps.map Node.unplaced)
      = Step.unplaced id (paramNames env body ps) := by
  induction ps with
  | nil => rfl
  | cons p rest ih =>
    rw [List.map_cons, paramNames, paramNames, childOf_unplaced, ownerOf_unplaced, ih]
    refine Step.unplaced_bind fun name => ?_
    refine Step.unplaced_bind fun owner => ?_
    refine Step.unplaced_bind fun names => ?_
    simp

/-- The function of a given name, once its parts are known. -/
def functionNamed (env : Env) (body result : Node) (ps : List Node) (name : Bytes) :
    Step (Wat.Func Op) := do
  let names ← paramNames env body ps
  let owner ← ownerOf env body
  if owner.varNames.length < ps.length then fault .noVariables
  else do
    let code ← statement env [] body
    pure {
      name := name
      params := names
      result := result.kind != .void
      locals := scratch :: (owner.varNames.drop ps.length).map owner.storageName
      body := if result.kind != .void then code ++ [.op .unreachable] else code }

theorem function_eq (env : Env) (decl : Node) :
    function env decl = (do
      let body ← childOf decl 3
      let result ← childOf decl 0
      let params ← childOf decl 2
      if decl.kind = .entryPointDeclaration then functionNamed env body result [] entryName
      else do
        let id ← childOf decl 1
        let name ← storageName env id
        functionNamed env body result params.children name) := by
  unfold function functionNamed
  by_cases isEntry : decl.kind = .entryPointDeclaration
  · simp only [isEntry, if_true, pure_bind]
  · simp only [isEntry, if_false]

theorem functionNamed_unplaced (env : Env) (body result : Node) (ps : List Node) (name : Bytes) :
    functionNamed env.unplaced body.unplaced result.unplaced (ps.map Node.unplaced) name
      = Step.unplaced id (functionNamed env body result ps name) := by
  unfold functionNamed
  rw [paramNames_unplaced, ownerOf_unplaced, statement_unplaced, List.length_map,
    Node.kind_unplaced]
  refine Step.unplaced_bind fun names => ?_
  refine Step.unplaced_bind fun owner => ?_
  rw [Scope.varNames_unplaced]
  split
  · rfl
  · exact Step.unplaced_bind fun code => rfl

theorem function_unplaced (env : Env) (decl : Node) :
    function env.unplaced decl.unplaced = Step.unplaced id (function env decl) := by
  rw [function_eq, function_eq, Node.kind_unplaced]
  simp only [childOf_unplaced]
  refine Step.unplaced_bind fun body => ?_
  refine Step.unplaced_bind fun result => ?_
  refine Step.unplaced_bind fun params => ?_
  split
  · exact functionNamed_unplaced env body result [] entryName
  · refine Step.unplaced_bind fun name => ?_
    rw [storageName_unplaced, Node.children_unplaced]
    exact Step.unplaced_bind fun stored => functionNamed_unplaced env body result _ stored

theorem declarations_unplaced (env : Env) (ds : List Node) :
    declarations env.unplaced (ds.map Node.unplaced)
      = Step.unplaced id (declarations env ds) := by
  induction ds with
  | nil => rfl
  | cons d rest ih =>
    rw [List.map_cons, declarations, declarations, Node.kind_unplaced, ih]
    split
    · rw [function_unplaced]
      refine Step.unplaced_bind fun f => ?_
      exact Step.unplaced_bind fun parts => rfl
    · rw [function_unplaced]
      refine Step.unplaced_bind fun f => ?_
      exact Step.unplaced_bind fun parts => rfl
    · rw [childOf_unplaced]
      refine Step.unplaced_bind fun name => ?_
      rw [storageName_unplaced]
      refine Step.unplaced_bind fun stored => ?_
      exact Step.unplaced_bind fun parts => rfl
    · rfl

theorem libraryFuncs_unplaced (env : Env) :
    libraryFuncs env.unplaced = Step.unplaced id (libraryFuncs env) := by
  unfold libraryFuncs
  refine Step.unplaced_bind (g := id) (x := intern (utf8 "true")) fun yes => ?_
  exact Step.unplaced_bind (g := id) (x := intern (utf8 "false")) fun no => rfl

theorem moduleOf_unplaced (env : Env) (root : Node) :
    moduleOf env.unplaced root.unplaced = Step.unplaced id (moduleOf env root) := by
  unfold moduleOf
  rw [libraryFuncs_unplaced, Node.children_unplaced, declarations_unplaced]
  refine Step.unplaced_bind fun library => ?_
  refine Step.unplaced_bind fun parts => ?_
  exact Step.unplaced_bind (g := id) (x := get) fun s => rfl

/-- A tree without locations is lowered to the module of the tree. -/
theorem program_unplaced (env : Env) (root : Node) :
    program env.unplaced root.unplaced = (program env root).unplaced := by
  unfold program
  rw [moduleOf_unplaced]
  unfold Step.unplaced
  rcases moduleOf env root .initial with f | ⟨m, s⟩ <;> rfl

end TreeWat.Lower
