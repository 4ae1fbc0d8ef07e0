import TreeWat.Lower.Expression
set_option autoImplicit false

/-!
# Lower: statements and functions

A loop becomes a block around a loop.  The condition is tested once in front of the
loop and once more at its end, so its code appears twice; a `break` branches to the
label of the block.  Loop labels are numbered through the whole module.
-/

namespace TreeWat.Lower

open Wat (Code Op Instr)

/-- The name of the entry point in the module. -/
def entryName : Bytes := utf8 "$main"

/-- The label of the block around the loop with the given number. -/
def breakLabel (num : Nat) : Bytes := utf8 "$B" ++ Bytes.ofNat num

/-- The label of the loop with the given number. -/
def loopLabel (num : Nat) : Bytes := utf8 "$L" ++ Bytes.ofNat num

/-- A loop that tests its condition first: skipped if the condition is false on
entry, and repeated as long as it stays true. -/
def whileLoop (num : Nat) (cond body again : Code) : Instr Op :=
  .block (breakLabel num)
    (cond ++ [.op .eqz, .op (.brIf (breakLabel num)),
      .loop (loopLabel num) (body ++ again ++ [.op (.brIf (loopLabel num))])])

/-- Whether a checked expression leaves a value on the stack. -/
def producesValue (n : Node) : Bool :=
  n.sig == Ty.int.text || n.sig == Ty.boolean.text

/-- Code whose value, if it has one, is thrown away. -/
def discarding (n : Node) (code : Code) : Code :=
  if producesValue n then code ++ [.op .drop] else code

/-- A fresh loop number. -/
def freshLabel : Step Nat := do
  let s ← get
  set { s with labels := s.labels + 1 }
  pure s.labels

mutual

/-- The code of a statement inside the loops with the given numbers, innermost
first. -/
def statement (env : Env) (loops : List Nat) (n : Node) : Step Code :=
  match n with
  | ⟨kind, attr, loc, note, children⟩ =>
    let n : Node := ⟨kind, attr, loc, note, children⟩
    match kind with
    | .block => statements env loops children
    | .variableDeclaration => pure []
    | .nullStatement => pure []
    | .statementExpression =>
      match children with
      | [] => malformed n (.missingChild 1 0)
      | e :: _ => do
        let code ← topExpression env e
        pure (discarding e code)
    | .functionInvocation => do
      let code ← expression env n
      pure (discarding n code)
    | .ifThen =>
      match children with
      | [] => malformed n (.missingChild 1 0)
      | [cond] => do
        let _ ← topExpression env cond
        malformed n (.missingChild 2 1)
      | cond :: arm :: _ => do
        let test ← topExpression env cond
        let whenTrue ← statement env loops arm
        pure (test ++ [.cond whenTrue []])
    | .ifElse =>
      match children with
      | [] => malformed n (.missingChild 1 0)
      | [cond] => do
        let _ ← topExpression env cond
        malformed n (.missingChild 2 1)
      | [cond, arm] => do
        let _ ← topExpression env cond
        let _ ← statement env loops arm
        malformed n (.missingChild 3 2)
      | cond :: arm₁ :: arm₂ :: _ => do
        let test ← topExpression env cond
        let whenTrue ← statement env loops arm₁
        let whenFalse ← statement env loops arm₂
        pure (test ++ [.cond whenTrue whenFalse])
    | .while =>
      match children with
      | [] => malformed n (.missingChild 1 0)
      | [cond] => do
        let _ ← topExpression env cond
        malformed n (.missingChild 2 1)
      | cond :: body :: _ => do
        let num ← freshLabel
        let test ← topExpression env cond
        let code ← statement env (num :: loops) body
        let again ← topExpression env cond
        pure [whileLoop num test code again]
    | .return =>
      match children with
      | [] => pure [.op .ret]
      | value :: _ => do
        let code ← topExpression env value
        pure (code ++ [.op .ret])
    | .break =>
      match loops with
      | [] => fault .noLoop
      | num :: _ => pure [.op (.br (breakLabel num))]
    | _ => malformed n .notAStatement

/-- The code of statements in order. -/
def statements (env : Env) (loops : List Nat) : List Node → Step Code
  | [] => pure []
  | s :: rest => do
    let code ← statement env loops s
    let more ← statements env loops rest
    pure (code ++ more)

end

/-! ## Functions -/

/-- The child with index `i`, as a lowering step. -/
def childOf (n : Node) (i : Nat) : Step Node :=
  match n.child i with
  | .ok c => pure c
  | .error e => throw (.shape e)

/-- The generated name of a declared symbol. -/
def storageName (env : Env) (id : Node) : Step Bytes := do
  let owner ← ownerOf env id
  pure (owner.storageName id.attr)

/-- The generated names of parameters, which live in the scope noted on `body`. -/
def paramNames (env : Env) (body : Node) : List Node → Step (List Bytes)
  | [] => pure []
  | p :: rest => do
    let id ← childOf p 1
    let owner ← ownerOf env body
    let names ← paramNames env body rest
    pure (owner.storageName id.attr :: names)

/-- Lowers one function.  Its locals are the scratch local and every variable of its
scope that is no parameter; the parameters of an entry point are plain locals. -/
def function (env : Env) (decl : Node) : Step (Wat.Func Op) := do
  let body ← childOf decl 3
  let result ← childOf decl 0
  let params ← childOf decl 2
  let isEntry := decl.kind = .entryPointDeclaration
  let name ← if isEntry then pure entryName
    else do
      let id ← childOf decl 1
      storageName env id
  let ps := if isEntry then [] else params.children
  let names ← paramNames env body ps
  let owner ← ownerOf env body
  if owner.varNames.length < ps.length then fault .noVariables
  else do
    let locals := (owner.varNames.drop ps.length).map owner.storageName
    let code ← statement env [] body
    let hasResult := result.kind != .void
    pure {
      name := name
      params := names
      result := hasResult
      locals := scratch :: locals
      body := if hasResult then code ++ [.op .unreachable] else code }

end TreeWat.Lower
