import TreeWat.Lower.Program
import TreeWat.Proofs.Loops
set_option autoImplicit false

/-!
# Lower: the generator with a log

The stack of loops is an argument of `statement` and leaves no trace of its own in a module.
Here the generator runs with a log: each statement that it enters is written down with its
place in the tree and with the loops that it is handed.  The log is a by-product, as the
generator with a log does what the generator does (`tracedProgram_fst`).
-/

namespace TreeWat.Lower

open Wat (Code Op Instr)

/-- The statements that were entered, in order: the place of each and the loops on the stack of
the generator, innermost first. -/
abbrev Log : Type := List (List Nat × List Nat)

mutual

/-- `statement` with a log. -/
def tracedStatement (env : Env) (loops : List Nat) (place : List Nat) (n : Node) :
    Step (Code × Log) :=
  match n with
  | ⟨kind, attr, loc, note, children⟩ =>
    match kind, children with
    | .block, children => do
      let (code, log) ← tracedStatements env loops place 0 children
      pure (code, (place, loops) :: log)
    | .ifThen, cond :: arm :: _ => do
      let test ← topExpression env cond
      let (whenTrue, log) ← tracedStatement env loops (place ++ [1]) arm
      pure (test ++ [.cond whenTrue []], (place, loops) :: log)
    | .ifElse, cond :: arm₁ :: arm₂ :: _ => do
      let test ← topExpression env cond
      let (whenTrue, log₁) ← tracedStatement env loops (place ++ [1]) arm₁
      let (whenFalse, log₂) ← tracedStatement env loops (place ++ [2]) arm₂
      pure (test ++ [.cond whenTrue whenFalse], (place, loops) :: (log₁ ++ log₂))
    | .while, cond :: body :: _ => do
      let num ← freshLabel
      let test ← topExpression env cond
      let (code, log) ← tracedStatement env (num :: loops) (place ++ [1]) body
      let again ← topExpression env cond
      pure ([whileLoop num test code again], (place, loops) :: log)
    | kind, children => do
      -- all others hold no statement
      let code ← statement env loops ⟨kind, attr, loc, note, children⟩
      pure (code, [(place, loops)])

/-- `statements` with a log; the first statement has the index `i`. -/
def tracedStatements (env : Env) (loops : List Nat) (place : List Nat) (i : Nat) :
    List Node → Step (Code × Log)
  | [] => pure ([], [])
  | s :: rest => do
    let (code, log) ← tracedStatement env loops (place ++ [i]) s
    let (more, others) ← tracedStatements env loops place (i + 1) rest
    pure (code ++ more, log ++ others)

end

/-- `function` with a log. -/
def tracedFunction (env : Env) (place : List Nat) (decl : Node) : Step (Wat.Func Op × Log) := do
  let body ← childOf decl 3
  let result ← childOf decl 0
  let params ← childOf decl 2
  let isEntry := decl.kind = .entryPointDeclaration
  let name ← if isEntry then pure entryName
    else do
      let id ← childOf decl 1
      storageName env id
  let ps := if isEntry then [] else params.children
  let names ← paramNames env body ps
  let owner ← ownerOf env body
  if owner.varNames.length < ps.length then fault .noVariables
  else do
    let locals := (owner.varNames.drop ps.length).map owner.storageName
    let (code, log) ← tracedStatement env [] (place ++ [3]) body
    let hasResult := result.kind != .void
    pure ({
      name := name
      params := names
      result := hasResult
      locals := scratch :: locals
      body := if hasResult then code ++ [.op .unreachable] else code }, log)

/-- `declarations` with a log; the first declaration has the index `i`. -/
def tracedDeclarations (env : Env) (i : Nat) : List Node → Step (Parts × Log)
  | [] => pure (⟨[], [], false⟩, [])
  | d :: rest =>
    match d.kind with
    | .entryPointDeclaration => do
      let (f, log) ← tracedFunction env [i] d
      let (parts, others) ← tracedDeclarations env (i + 1) rest
      pure ({ parts with funcs := f :: parts.funcs, hasEntry := true }, log ++ others)
    | .functionDeclaration => do
      let (f, log) ← tracedFunction env [i] d
      let (parts, others) ← tracedDeclarations env (i + 1) rest
      pure ({ parts with funcs := f :: parts.funcs }, log ++ others)
    | .variableDeclaration => do
      let id ← childOf d 1
      let name ← storageName env id
      let (parts, others) ← tracedDeclarations env (i + 1) rest
      pure ({ parts with globals := name :: parts.globals }, others)
    | _ => tracedDeclarations env (i + 1) rest

/-- `moduleOf` with a log. -/
def tracedModule (env : Env) (root : Node) : Step (Wat.Module Op × Log) := do
  let library ← libraryFuncs env
  let (parts, log) ← tracedDeclarations env 0 root.children
  let s ← get
  pure ({
    imports := libraryImports env
    funcs := library ++ parts.funcs
    globals := parts.globals
    start := if parts.hasEntry then some entryName else none
    memory := Wat.pagesFor s.literals.size
    data := s.literals.data }, log)

/-- `program` with a log. -/
def tracedProgram (env : Env) (root : Node) : Outcome (Wat.Module Op × Log) :=
  match tracedModule env root .initial with
  | .ok (r, _) => .ok r
  | .error f => .error f

/-! ## The log is a by-product -/

section Erasure

variable {env : Env}

theorem tracedStatements_fst {ss : List Node} {loops : List Nat}
    (each : ∀ s ∈ ss, ∀ place,
      Prod.fst <$> tracedStatement env loops place s = statement env loops s)
    (place : List Nat) (i : Nat) :
    Prod.fst <$> tracedStatements env loops place i ss = statements env loops ss := by
  induction ss generalizing i with
  | nil => simp [tracedStatements, statements]
  | cons s rest ih =>
    have hfirst := each s List.mem_cons_self (place ++ [i])
    have hothers := ih (fun s hs => each s (List.mem_cons_of_mem _ hs)) (i + 1)
    simp [tracedStatements, statements, ← hfirst, ← hothers]

theorem tracedStatement_fst (n : Node) : ∀ loops place,
    Prod.fst <$> tracedStatement env loops place n = statement env loops n := by
  induction n using Node.induction with
  | step n ih =>
    intro loops place
    rcases n with ⟨kind, attr, loc, note, children⟩
    have each : ∀ c ∈ children, ∀ loops place,
        Prod.fst <$> tracedStatement env loops place c = statement env loops c :=
      fun c hc => ih c (Node.mem_descendants_of_child hc)
    cases kind
    case block =>
      have hall := tracedStatements_fst (fun s hs => each s hs loops) place 0
      simp [tracedStatement, statement, ← hall]
    case ifThen =>
      rcases children with _ | ⟨cond, _ | ⟨arm, rest⟩⟩
      · simp [tracedStatement]
      · simp [tracedStatement]
      · simp [tracedStatement, statement, ← each arm (by simp) loops (place ++ [1])]
    case ifElse =>
      rcases children with _ | ⟨cond, _ | ⟨arm₁, _ | ⟨arm₂, rest⟩⟩⟩
      · simp [tracedStatement]
      · simp [tracedStatement]
      · simp [tracedStatement]
      · simp [tracedStatement, statement, ← each arm₁ (by simp) loops (place ++ [1]),
          ← each arm₂ (by simp) loops (place ++ [2])]
    case «while» =>
      rcases children with _ | ⟨cond, _ | ⟨body, rest⟩⟩
      · simp [tracedStatement]
      · simp [tracedStatement]
      · simp [tracedStatement, statement, ← each body (by simp) _ (place ++ [1])]
    all_goals simp [tracedStatement]

theorem tracedFunction_fst (place : List Nat) (decl : Node) :
    Prod.fst <$> tracedFunction env place decl = function env decl := by
  unfold tracedFunction function
  simp only [map_bind]
  refine bind_congr fun body => bind_congr fun result => bind_congr fun params => ?_
  rw [← tracedStatement_fst body [] (place ++ [3])]
  have hfault : ∀ f : Fault, Prod.fst <$> (fault f : Step (Wat.Func Op × Log)) = fault f :=
    fun _ => rfl
  split
  · simp
  · simp [apply_ite (Prod.fst <$> ·), hfault]

theorem tracedDeclarations_fst (ds : List Node) (i : Nat) :
    Prod.fst <$> tracedDeclarations env i ds = declarations env ds := by
  induction ds generalizing i with
  | nil => simp [tracedDeclarations, declarations]
  | cons d rest ih =>
    rw [tracedDeclarations, declarations]
    generalize d.kind = kind
    cases kind
    case entryPointDeclaration => simp [← tracedFunction_fst [i] d, ← ih (i + 1)]
    case functionDeclaration => simp [← tracedFunction_fst [i] d, ← ih (i + 1)]
    case variableDeclaration => simp [← ih (i + 1)]
    all_goals exact ih (i + 1)

theorem tracedModule_fst (root : Node) :
    Prod.fst <$> tracedModule env root = moduleOf env root := by
  simp [tracedModule, moduleOf, ← tracedDeclarations_fst root.children 0]

/-- Without its log, the generator with a log is the generator. -/
theorem tracedProgram_fst (root : Node) :
    Prod.fst <$> tracedProgram env root = program env root := by
  have erased : moduleOf env root .initial =
      (tracedModule env root .initial >>= fun r => pure (r.1.1, r.2)) := by
    rw [← tracedModule_fst]
    rfl
  unfold tracedProgram program
  rw [erased]
  cases tracedModule env root .initial with
  | error f => rfl
  | ok r => rfl

/-- The generator with a log ends well wherever the generator does. -/
theorem tracedProgram_of_program {root : Node} {m : Wat.Module Op}
    (lowered : program env root = .ok m) : ∃ log, tracedProgram env root = .ok (m, log) := by
  have herase : Prod.fst <$> tracedProgram env root = program env root := tracedProgram_fst root
  rw [lowered] at herase
  cases hrun : tracedProgram env root with
  | error f =>
    rw [hrun] at herase
    cases herase
  | ok r =>
    rw [hrun] at herase
    obtain rfl : r.1 = m := Except.ok.inj herase
    exact ⟨r.2, rfl⟩

end Erasure

end TreeWat.Lower
