import TreeWat.Check.Program
import TreeWat.Proofs.Tree
set_option autoImplicit false

/-!
# Check: the checker with a log

The stack of open scopes is gone when the checker is done with a statement.  Here the
checker runs with a log: each statement that it enters is written down with its place in the
tree and with the context in which it is entered.  The log is a by-product, as the checker
with a log does what the checker does (`tracedCheckProgram_fst`).
-/

namespace TreeWat.Check

/-- The statements that were entered, in order: the place of each and the context of the
checker. -/
abbrev Log : Type := List (List Nat × Context)

mutual

/-- `checkStatementIn` with a log. -/
def tracedCheckIn (own : Option ScopeId) (c : Context) (place : List Nat) (n : Node) :
    (Outcome Unit × Node × Context) × Log :=
  match n with
  | ⟨kind, attr, loc, note, children⟩ =>
    let n : Node := ⟨kind, attr, loc, note, children⟩
    match kind, children with
    | .block, children =>
      let inside := match own with
        | some id => (c, id)
        | none => c.enter fun tag => .empty .block tag loc
      match n.annotate [] (some inside.2) with
      | .error e => ((.error (.shape e), n, inside.1.leaveBlock own), [(place, c)])
      | .ok n' =>
        match tracedCheckAll inside.1 place 0 children with
        | ((o, children', c'), log) =>
          ((o, { n' with children := children' }, c'.leaveBlock own), (place, c) :: log)
    | .ifThen, [cond, arm] =>
      match checkCondition c cond with
      | (.error e, cond') => ((.error e, { n with children := [cond', arm] }, c), [(place, c)])
      | (.ok (), cond') =>
        let inside := c.enter fun tag => .empty .block tag arm.loc
        match tracedCheckIn (some inside.2) inside.1 (place ++ [1]) arm with
        | ((o, arm', c'), log) =>
          ((o, { n with children := [cond', arm'] }, c'.leave), (place, c) :: log)
    | .ifElse, [cond, arm₁, arm₂] =>
      match checkCondition c cond with
      | (.error e, cond') =>
        ((.error e, { n with children := [cond', arm₁, arm₂] }, c), [(place, c)])
      | (.ok (), cond') =>
        let inside₁ := c.enter fun tag => .empty .block tag arm₁.loc
        match tracedCheckIn (some inside₁.2) inside₁.1 (place ++ [1]) arm₁ with
        | ((.error e, arm₁', c₁), log₁) =>
          ((.error e, { n with children := [cond', arm₁', arm₂] }, c₁.leave),
            (place, c) :: log₁)
        | ((.ok (), arm₁', c₁), log₁) =>
          let inside₂ := c₁.leave.enter fun tag => .empty .block tag arm₂.loc
          match tracedCheckIn (some inside₂.2) inside₂.1 (place ++ [2]) arm₂ with
          | ((o, arm₂', c₂), log₂) =>
            ((o, { n with children := [cond', arm₁', arm₂'] }, c₂.leave),
              (place, c) :: (log₁ ++ log₂))
    | .while, [cond, body] =>
      match checkCondition c cond with
      | (.error e, cond') => ((.error e, { n with children := [cond', body] }, c), [(place, c)])
      | (.ok (), cond') =>
        let inside := c.enter fun tag => .empty .loop tag body.loc
        match tracedCheckIn (some inside.2) inside.1 (place ++ [1]) body with
        | ((o, body', c'), log) =>
          ((o, { n with children := [cond', body'] }, c'.leave), (place, c) :: log)
    | kind, children =>
      -- all others hold no statement
      (checkStatementIn own c ⟨kind, attr, loc, note, children⟩, [(place, c)])

/-- `checkStatements` with a log; the first statement has the index `i`. -/
def tracedCheckAll (c : Context) (place : List Nat) (i : Nat) :
    List Node → (Outcome Unit × List Node × Context) × Log
  | [] => ((.ok (), [], c), [])
  | s :: rest =>
    match tracedCheckIn none c (place ++ [i]) s with
    | ((.error e, s', c'), log) => ((.error e, s' :: rest, c'), log)
    | ((.ok (), s', c'), log) =>
      match tracedCheckAll c' place (i + 1) rest with
      | ((o, rest', c''), others) => ((o, s' :: rest', c''), log ++ others)

end

/-- `checkFunctionBody` with a log. -/
def tracedCheckBody (fn : ScopeId) (c : Context) (place : List Nat) (body : Node) :
    (Outcome Unit × Node × Context) × Log :=
  match body.annotate [] (some fn) with
  | .error e => ((.error (.shape e), body, c), [(place, c)])
  | .ok body' =>
    match tracedCheckAll c place 0 body.children with
    | ((o, stmts', c'), log) => ((o, { body' with children := stmts' }, c'), (place, c) :: log)

/-- `checkFunction` with a log. -/
def tracedCheckFunction (c : Context) (place : List Nat) (fn : Node) :
    (Outcome Unit × Node × Context) × Log :=
  match fn.children with
  | [resultNode, name, params, body] =>
    if body.kind ≠ .block then
      ((.error (.shape (body.malformed (.wrongKind [Kind.block.text]))), fn, c), [])
    else
      match typeOf resultNode with
      | .error e => ((.error (.shape e), fn, c), [])
      | .ok result =>
        let inside := c.enter fun tag => .function tag fn.loc result
        if params.kind ≠ .formalParameterList then
          ((.error (.shape (params.malformed (.wrongKind [Kind.formalParameterList.text]))),
            fn, inside.1.leave), [])
        else
          match checkParameters inside.2 inside.1 params.children with
          | (.error e, ps', c') =>
            ((.error e,
              { fn with children := [resultNode, name, { params with children := ps' }, body] },
              c'.leave), [])
          | (.ok (), ps', c') =>
            match tracedCheckBody inside.2 c' (place ++ [3]) body with
            | ((o, body', c''), log) =>
              ((o, { fn with
                    children := [resultNode, name, { params with children := ps' }, body'] },
                c''.leave), log)
  | _ => ((.error (.shape (fn.malformed (.childCount 4 fn.children.length))), fn, c), [])

/-- `checkBodiesOf` with a log; the first declaration has the index `i`. -/
def tracedCheckBodiesOf (c : Context) (i : Nat) :
    List Node → (Outcome Unit × List Node × Context) × Log
  | [] => ((.ok (), [], c), [])
  | d :: rest =>
    if d.kind = .functionDeclaration ∨ d.kind = .entryPointDeclaration then
      match tracedCheckFunction c [i] d with
      | ((.error e, d', c'), log) => ((.error e, d' :: rest, c'), log)
      | ((.ok (), d', c'), log) =>
        match tracedCheckBodiesOf c' (i + 1) rest with
        | ((o, rest', c''), others) => ((o, d' :: rest', c''), log ++ others)
    else
      match tracedCheckBodiesOf c (i + 1) rest with
      | ((o, rest', c'), log) => ((o, d :: rest', c'), log)

/-- `checkProgram` with a log. -/
def tracedCheckProgram (root : Node) : Outcome CheckedProgram × Log :=
  match collectGlobals .initial root with
  | (.error e, _, _) => (.error e, [])
  | (.ok (), root', c) =>
    match tracedCheckBodiesOf c 0 root'.children with
    | ((.error e, _, _), log) => (.error e, log)
    | ((.ok (), decls, c'), log) =>
      match checkAllReturns c'.scopes { root' with children := decls } with
      | .error e => (.error e, log)
      | .ok () => (.ok ⟨{ root' with children := decls }, c'.scopes⟩, log)

/-! ## The log is a by-product -/

theorem tracedCheckAll_fst {ss : List Node}
    (each : ∀ s ∈ ss, ∀ c place, (tracedCheckIn none c place s).1 = checkStatementIn none c s)
    (c : Context) (place : List Nat) (i : Nat) :
    (tracedCheckAll c place i ss).1 = checkStatements c ss := by
  induction ss generalizing c i with
  | nil => rfl
  | cons s rest ih =>
    have hothers := fun c' => ih (fun s hs => each s (List.mem_cons_of_mem _ hs)) c' (i + 1)
    rw [tracedCheckAll, checkStatements, ← each s List.mem_cons_self c (place ++ [i])]
    rcases tracedCheckIn none c (place ++ [i]) s with ⟨⟨_ | ⟨⟩, s', c'⟩, log⟩
    · rfl
    · dsimp only
      rw [← hothers]

theorem tracedCheckIn_fst (n : Node) : ∀ own c place,
    (tracedCheckIn own c place n).1 = checkStatementIn own c n := by
  induction n using Node.induction with
  | step n ih =>
    intro own c place
    rcases n with ⟨kind, attr, loc, note, children⟩
    have each : ∀ m ∈ children, ∀ own c place,
        (tracedCheckIn own c place m).1 = checkStatementIn own c m :=
      fun m hm => ih m (Node.mem_descendants_of_child hm)
    cases kind
    case block =>
      have hall := fun c => tracedCheckAll_fst (fun s hs => each s hs none) c place 0
      simp only [tracedCheckIn, checkStatementIn, ← hall]
      generalize Node.annotate _ _ _ = noted
      cases noted with
      | error e => rfl
      | ok n' => rfl
    case ifThen =>
      rcases children with _ | ⟨cond, _ | ⟨arm, _ | ⟨_, _⟩⟩⟩
      · rfl
      · rfl
      · have harm := fun own c => each arm (by simp) own c (place ++ [1])
        simp only [tracedCheckIn, checkStatementIn, ← harm]
        rcases checkCondition c cond with ⟨_ | ⟨⟩, cond'⟩
        · rfl
        · rfl
      · rfl
    case ifElse =>
      rcases children with _ | ⟨cond, _ | ⟨arm₁, _ | ⟨arm₂, _ | ⟨_, _⟩⟩⟩⟩
      · rfl
      · rfl
      · rfl
      · have harm₁ := fun own c => each arm₁ (by simp) own c (place ++ [1])
        have harm₂ := fun own c => each arm₂ (by simp) own c (place ++ [2])
        simp only [tracedCheckIn, checkStatementIn, ← harm₁, ← harm₂]
        rcases checkCondition c cond with ⟨_ | ⟨⟩, cond'⟩
        · rfl
        · dsimp only
          generalize tracedCheckIn _ _ (place ++ [1]) arm₁ = first
          rcases first with ⟨⟨_ | ⟨⟩, arm₁', c₁⟩, log₁⟩
          · rfl
          · rfl
      · rfl
    case «while» =>
      rcases children with _ | ⟨cond, _ | ⟨body, _ | ⟨_, _⟩⟩⟩
      · rfl
      · rfl
      · have hbody := fun own c => each body (by simp) own c (place ++ [1])
        simp only [tracedCheckIn, checkStatementIn, ← hbody]
        rcases checkCondition c cond with ⟨_ | ⟨⟩, cond'⟩
        · rfl
        · rfl
      · rfl
    all_goals rfl

theorem tracedCheckBody_fst (fn : ScopeId) (c : Context) (place : List Nat) (body : Node) :
    (tracedCheckBody fn c place body).1 = checkFunctionBody fn c body := by
  rw [tracedCheckBody, checkFunctionBody,
    ← tracedCheckAll_fst (fun s _ => tracedCheckIn_fst s none) c place 0]
  cases body.annotate [] (some fn) with
  | error e => rfl
  | ok body' => rfl

theorem tracedCheckFunction_fst (c : Context) (place : List Nat) (fn : Node) :
    (tracedCheckFunction c place fn).1 = checkFunction c fn := by
  unfold tracedCheckFunction checkFunction
  rcases fn.children with _ | ⟨resultNode, _ | ⟨name, _ | ⟨params, _ | ⟨body, _ | ⟨_, _⟩⟩⟩⟩⟩
  · rfl
  · rfl
  · rfl
  · rfl
  · dsimp only
    split
    · rfl
    · cases typeOf resultNode with
      | error e => rfl
      | ok result =>
        dsimp only
        split
        · rfl
        · generalize checkParameters _ _ params.children = checkedParams
          rcases checkedParams with ⟨_ | ⟨⟩, ps', c'⟩
          · rfl
          · dsimp only
            rw [← tracedCheckBody_fst _ c' (place ++ [3])]
  · rfl

theorem tracedCheckBodiesOf_fst (ds : List Node) (c : Context) (i : Nat) :
    (tracedCheckBodiesOf c i ds).1 = checkBodiesOf c ds := by
  induction ds generalizing c i with
  | nil => rfl
  | cons d rest ih =>
    rw [tracedCheckBodiesOf, checkBodiesOf]
    split
    · rw [← tracedCheckFunction_fst c [i] d]
      rcases tracedCheckFunction c [i] d with ⟨⟨_ | ⟨⟩, d', c'⟩, log⟩
      · rfl
      · dsimp only
        rw [← ih c' (i + 1)]
    · rw [← ih c (i + 1)]

/-- Without its log, the checker with a log is the checker. -/
theorem tracedCheckProgram_fst (root : Node) :
    (tracedCheckProgram root).1 = checkProgram root := by
  unfold tracedCheckProgram checkProgram checkProgramIn checkBodies
  rcases collectGlobals .initial root with ⟨_ | ⟨⟩, root', c⟩
  · rfl
  · dsimp only
    rw [← tracedCheckBodiesOf_fst root'.children c 0]
    rcases tracedCheckBodiesOf c 0 root'.children with ⟨⟨_ | ⟨⟩, ds, c'⟩, log⟩
    · rfl
    · dsimp only
      cases checkAllReturns c'.scopes { root' with children := ds } with
      | error e => rfl
      | ok _ => rfl

end TreeWat.Check
