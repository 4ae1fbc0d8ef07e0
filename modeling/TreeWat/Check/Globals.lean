import TreeWat.Check.Context
set_option autoImplicit false

/-!
# Check: global declarations

Collects the global variables, the functions with their signatures and the entry
point, before any function body is looked at, so that functions may call each other
in any order.
-/

namespace TreeWat.Check

/-- The parameter types of a function. -/
def parameterTypes : List Node → Except ShapeError (List Ty)
  | [] => .ok []
  | p :: rest => do
    p.expect [.formalParameter]
    p.expectChildren 2
    let ty ← valueTypeOf (← p.child 0)
    let tys ← parameterTypes rest
    .ok (ty :: tys)

/-- The name and the signature of a function declaration. -/
def functionHead (decl : Node) : Except ShapeError (Node × Signature) := do
  decl.expectChildren 4
  let result ← typeOf (← decl.child 0)
  let id ← decl.child 1
  id.expect [.id]
  let params ← decl.child 2
  params.expect [.formalParameterList]
  let tys ← parameterTypes params.children
  .ok (id, ⟨tys, result⟩)

/-- The name of an entry point. -/
def entryPointHead (decl : Node) : Except ShapeError Node := do
  decl.expectChildren 4
  (← decl.child 0).expect [.void]
  let id ← decl.child 1
  id.expect [.id]
  .ok id

/-- Notes a declared name, which is the second child of its declaration. -/
def noteName (c : Context) (decl id : Node) (sig : Bytes) : Outcome Unit × Node × Context :=
  match id.annotate sig (some .globals) with
  | .error e => (.error (.shape e), decl, c)
  | .ok id' => (.ok (), { decl with children := decl.children.set 1 id' }, c)

/-- Registers one global declaration. -/
def collectDeclaration (c : Context) (decl : Node) : Outcome Unit × Node × Context :=
  match decl.kind with
  | .entryPointDeclaration =>
    match entryPointHead decl with
    | .error e => (.error (.shape e), decl, c)
    | .ok id =>
      match c.setEntryPoint .globals id.attr decl.loc with
      | .error d => (.error (.user d), decl, c)
      | .ok c' => noteName c' decl id (id.attr ++ utf8 "()")
  | .functionDeclaration =>
    match functionHead decl with
    | .error e => (.error (.shape e), decl, c)
    | .ok (id, sig) =>
      match c.declareFunc .globals id.attr sig id.loc with
      | .error f => (.error f, decl, c)
      | .ok c' => noteName c' decl id sig.text
  | .variableDeclaration =>
    match typedName decl with
    | .error e => (.error (.shape e), decl, c)
    | .ok (ty, id) =>
      match c.declare .globals id.attr ty id.loc with
      | .error d => (.error (.user d), decl, c)
      | .ok c' => noteName c' decl id ty.text
  | _ =>
    (.error (.shape (decl.malformed (.wrongKind [Kind.variableDeclaration.text,
      Kind.functionDeclaration.text, Kind.entryPointDeclaration.text]))), decl, c)

/-- Registers declarations in order, up to the first failure. -/
def collectDeclarations (c : Context) : List Node → Outcome Unit × List Node × Context
  | [] => (.ok (), [], c)
  | d :: rest =>
    match collectDeclaration c d with
    | (.error e, d', c') => (.error e, d' :: rest, c')
    | (.ok (), d', c') =>
      match collectDeclarations c' rest with
      | (o, rest', c'') => (o, d' :: rest', c'')

/-- Registers every global declaration of a program, which must include an entry
point. -/
def collectGlobals (c : Context) (root : Node) : Outcome Unit × Node × Context :=
  match root.expect [.globalDeclarations] with
  | .error e => (.error (.shape e), root, c)
  | .ok () =>
    match collectDeclarations c root.children with
    | (.error e, decls, c') => (.error e, { root with children := decls }, c')
    | (.ok (), decls, c') =>
      if c'.scopes.globals.entryPoint.isEmpty then
        (.error (.user .noMain), { root with children := decls }, c')
      else (.ok (), { root with children := decls }, c')

end TreeWat.Check
