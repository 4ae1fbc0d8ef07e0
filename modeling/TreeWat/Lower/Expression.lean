import TreeWat.Check.Context
import TreeWat.Tree.Printer
import TreeWat.Wat.Literals
set_option autoImplicit false

/-!
# Lower: expressions

Turns a checked expression into stack code.  Names are read through the scopes noted
on them; nothing is checked again, so a tree that skipped the checker ends in a
`Fault` or a `ShapeError` here.

An expression that has a value pushes exactly one number; the short-circuit
operators pass theirs through a scratch local.
-/

namespace TreeWat.Lower

open Wat (Code Op Arith Instr Literals)

/-- The scratch local of every function. -/
def scratch : Bytes := utf8 "$tmp"

/-- What lowering reads. -/
structure Env where
  scopes : Scopes
  /-- Whether every top-level expression is followed by a comment that shows it. -/
  debug : Bool
  deriving Repr

/-- What lowering hands on. -/
structure State where
  literals : Literals
  /-- The number of the next loop label. -/
  labels : Nat
  deriving DecidableEq, Repr, Inhabited

/-- The state at the start: no literals, no labels. -/
def State.initial : State := ⟨.empty, 0⟩

/-- A lowering step. -/
abbrev Step (α : Type) : Type := StateT State (Except Failure) α

/-- Ends lowering at a node of the wrong shape. -/
def malformed {α : Type} (n : Node) (cause : ShapeCause) : Step α :=
  throw (.shape (n.malformed cause))

/-- Ends lowering with a fault. -/
def fault {α : Type} (f : Fault) : Step α :=
  throw (.fault f)

/-- The scope noted on a name. -/
def ownerOf (env : Env) (id : Node) : Step Scope :=
  match id.scope? with
  | some s => pure (env.scopes.get s)
  | none => fault .noScope

/-- The instruction that pushes a variable. -/
def load (env : Env) (id : Node) : Step Op := do
  let owner ← ownerOf env id
  let name := owner.storageName id.attr
  pure (if owner.isGlobalStorage then .globalGet name else .localGet name)

/-- The instruction that pops into a variable. -/
def store (env : Env) (id : Node) : Step Op := do
  let owner ← ownerOf env id
  let name := owner.storageName id.attr
  pure (if owner.isGlobalStorage then .globalSet name else .localSet name)

/-- Reserves memory for a string literal: its offset and its length. -/
def intern (raw : Bytes) : Step (Nat × Nat) := do
  let s ← get
  set { s with literals := s.literals.intern raw }
  pure (s.literals.size, Wat.literalLength raw)

/-- Code followed by a comment with the expression it comes from, in debug mode. -/
def commented (env : Env) (n : Node) (code : Code) : Code :=
  if env.debug then code ++ [.comment n.render] else code

/-- The instruction of an operator that evaluates both operands. -/
def arith? : BinaryOp → Option Arith
  | .eq => some .eq
  | .ne => some .ne
  | .lt => some .lt
  | .gt => some .gt
  | .le => some .le
  | .ge => some .ge
  | .add => some .add
  | .sub => some .sub
  | .mul => some .mul
  | .div => some .div
  | .mod => some .rem
  | .assign => none
  | .and => none
  | .or => none

/-- Whether a parameter list asks for a string, which is passed as an offset and a
length. -/
def takesString (params : List Ty) : Bool :=
  params.contains .string

/-- The signature under which the scope of a callee binds it; an unknown name has no
parameters. -/
def calleeParams (owner : Scope) (name : Bytes) : List Ty :=
  match owner.func? name with
  | some sig => sig.params
  | none => []

/-- The call instruction.  Control does not come back from the built-in `halt`. -/
def callCode (owner : Scope) (callee : Node) : Code :=
  [.op (.call (owner.storageName callee.attr))]
    ++ (if callee.scope? = some .builtins ∧ callee.attr = utf8 "halt" then
        [.op .unreachable] else [])

mutual

/-- The code of an expression. -/
def expression (env : Env) (n : Node) : Step Code :=
  match n with
  | ⟨kind, attr, loc, note, children⟩ =>
    let n : Node := ⟨kind, attr, loc, note, children⟩
    match kind with
    | .id => do
      let op ← load env n
      pure [.op op]
    | .num => pure [.op (.const attr)]
    | .trueLiteral => pure [.op (.number 1)]
    | .falseLiteral => pure [.op (.number 0)]
    | .string => pure []
    | .functionInvocation =>
      match children with
      | [] => malformed n (.missingChild 1 0)
      | [callee] => do
        let _ ← ownerOf env callee
        malformed n (.missingChild 2 1)
      | callee :: ⟨_, _, _, _, args⟩ :: _ => do
        let owner ← ownerOf env callee
        if takesString (calleeParams owner callee.attr) then
          match args with
          | [] => fault .noArgument
          | literal :: _ => do
            let (offset, length) ← intern literal.attr
            pure ([.op (.number offset), .op (.number length)] ++ callCode owner callee)
        else do
          let code ← arguments env args
          pure (code ++ callCode owner callee)
    | .binary op =>
      match children with
      | [] => malformed n (.missingChild 1 0)
      | [l] =>
        if op = .assign then malformed n (.missingChild 2 1)
        else do
          let _ ← expression env l
          malformed n (.missingChild 2 1)
      | l :: r :: _ =>
        match op with
        | .assign => do
          let value ← expression env r
          let set ← store env l
          let get ← load env l
          pure (value ++ [.op set, .op get])
        | .and => do
          let left ← expression env l
          let right ← expression env r
          pure (left ++ [
            .cond (right ++ [.op (.localSet scratch)])
              [.op (.number 0), .op (.localSet scratch)],
            .op (.localGet scratch)])
        | .or => do
          let left ← expression env l
          let right ← expression env r
          pure (left ++ [
            .cond [.op (.number 1), .op (.localSet scratch)]
              (right ++ [.op (.localSet scratch)]),
            .op (.localGet scratch)])
        | op => do
          let left ← expression env l
          let right ← expression env r
          match arith? op with
          | some a => pure (left ++ right ++ [.op (.arith a)])
          | none => malformed n .notAnExpression
    | .unary op =>
      match children with
      | [] => malformed n (.missingChild 1 0)
      | e :: _ => do
        let code ← expression env e
        match op with
        | .neg => pure ([.op (.number 0)] ++ code ++ [.op (.arith .sub)])
        | .not => pure (code ++ [.op .eqz])
    | _ => malformed n .notAnExpression

/-- The code of arguments, left to right. -/
def arguments (env : Env) : List Node → Step Code
  | [] => pure []
  | a :: rest => do
    let code ← expression env a
    let more ← arguments env rest
    pure (commented env a code ++ more)

end

/-- The code of a top-level expression. -/
def topExpression (env : Env) (n : Node) : Step Code := do
  let code ← expression env n
  pure (commented env n code)

end TreeWat.Lower
