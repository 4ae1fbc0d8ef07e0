import TreeWat.Lower.Library
set_option autoImplicit false

/-!
# Lower: whole programs

The module of a checked program: the runtime library, the user's functions and
globals in source order, and the string literals met on the way.
-/

namespace TreeWat.Lower

open Wat (Op)

/-- What a list of declarations contributes to a module. -/
structure Parts where
  funcs : List (Wat.Func Op)
  globals : List Bytes
  /-- Whether there is an entry point. -/
  hasEntry : Bool
  deriving Repr, Inhabited

/-- Lowers declarations in order. -/
def declarations (env : Env) : List Node → Step Parts
  | [] => pure ⟨[], [], false⟩
  | d :: rest =>
    match d.kind with
    | .entryPointDeclaration => do
      let f ← function env d
      let parts ← declarations env rest
      pure { parts with funcs := f :: parts.funcs, hasEntry := true }
    | .functionDeclaration => do
      let f ← function env d
      let parts ← declarations env rest
      pure { parts with funcs := f :: parts.funcs }
    | .variableDeclaration => do
      let id ← childOf d 1
      let name ← storageName env id
      let parts ← declarations env rest
      pure { parts with globals := name :: parts.globals }
    | _ => declarations env rest

/-- The module of a program, as a lowering step. -/
def moduleOf (env : Env) (root : Node) : Step (Wat.Module Op) := do
  let library ← libraryFuncs env
  let parts ← declarations env root.children
  let s ← get
  pure {
    imports := libraryImports env
    funcs := library ++ parts.funcs
    globals := parts.globals
    start := if parts.hasEntry then some entryName else none
    memory := Wat.pagesFor s.literals.size
    data := s.literals.data }

/-- The module of a program. -/
def program (env : Env) (root : Node) : Outcome (Wat.Module Op) :=
  match moduleOf env root .initial with
  | .ok (m, _) => .ok m
  | .error f => .error f

end TreeWat.Lower
