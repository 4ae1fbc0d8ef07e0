import TreeWat.Proofs.Check.Lexical
set_option autoImplicit false

/-!
# Typing: the rules of the language

The rules stated on their own, without the checker's walk, its stack of scopes or its
notes.  `HasType` gives the type of an expression, `Obeys` says that a statement
below the outermost block of a function keeps the rules, `BodyObeys` says the same of
the direct statements of that block, which alone may declare variables, and
`FunctionObeys` of a whole function or entry point.
-/

namespace TreeWat

/-- The expression has the type. -/
inductive HasType (Γ : Names) : Node → Ty → Prop where
  | name {attr loc note ch ty} (declared : Γ.var? attr = some ty) :
      HasType Γ ⟨.id, attr, loc, note, ch⟩ ty
  | number {attr loc note ch} : HasType Γ ⟨.num, attr, loc, note, ch⟩ .int
  | trueLiteral {attr loc note ch} :
      HasType Γ ⟨.trueLiteral, attr, loc, note, ch⟩ .boolean
  | falseLiteral {attr loc note ch} :
      HasType Γ ⟨.falseLiteral, attr, loc, note, ch⟩ .boolean
  | string {attr loc note ch} : HasType Γ ⟨.string, attr, loc, note, ch⟩ .string
  | assignment {attr loc note l r ty} (target : l.kind = .id) (left : HasType Γ l ty)
      (right : HasType Γ r ty) :
      HasType Γ ⟨.binary .assign, attr, loc, note, [l, r]⟩ ty
  | equality {op attr loc note l r ty} (isEquality : op = .eq ∨ op = .ne)
      (hasValue : ty = .int ∨ ty = .boolean) (left : HasType Γ l ty) (right : HasType Γ r ty) :
      HasType Γ ⟨.binary op, attr, loc, note, [l, r]⟩ .boolean
  | arithmetic {op attr loc note l r} (isArithmetic : op ∈ [.add, .sub, .mul, .div, .mod])
      (left : HasType Γ l .int) (right : HasType Γ r .int) :
      HasType Γ ⟨.binary op, attr, loc, note, [l, r]⟩ .int
  | comparison {op attr loc note l r} (isComparison : op ∈ [.lt, .gt, .le, .ge])
      (left : HasType Γ l .int) (right : HasType Γ r .int) :
      HasType Γ ⟨.binary op, attr, loc, note, [l, r]⟩ .boolean
  | logical {op attr loc note l r} (isLogical : op = .and ∨ op = .or)
      (left : HasType Γ l .boolean) (right : HasType Γ r .boolean) :
      HasType Γ ⟨.binary op, attr, loc, note, [l, r]⟩ .boolean
  | negation {attr loc note e} (operand : HasType Γ e .int) :
      HasType Γ ⟨.unary .neg, attr, loc, note, [e]⟩ .int
  | complement {attr loc note e} (operand : HasType Γ e .boolean) :
      HasType Γ ⟨.unary .not, attr, loc, note, [e]⟩ .boolean
  | call {attr loc note name nameLoc nameNote nameCh listAttr listLoc listNote args sig}
      (resolved : Γ.func? name = some sig) (count : args.length = sig.params.length)
      (arguments : ∀ p ∈ args.zip sig.params, HasType Γ p.1 p.2) :
      HasType Γ ⟨.functionInvocation, attr, loc, note, [⟨.id, name, nameLoc, nameNote, nameCh⟩,
        ⟨.argumentList, listAttr, listLoc, listNote, args⟩]⟩ sig.result

/-- The statement, which is not a direct one of the outermost block, keeps the rules of
a function with the given result; `inLoop` says whether a loop surrounds it. -/
inductive Obeys (Γ : Names) (result : Ty) : Bool → Node → Prop where
  | block {inLoop attr loc note ch} (statements : ∀ s ∈ ch, Obeys Γ result inLoop s) :
      Obeys Γ result inLoop ⟨.block, attr, loc, note, ch⟩
  | expression {inLoop attr loc note e ty} (typed : HasType Γ e ty) :
      Obeys Γ result inLoop ⟨.statementExpression, attr, loc, note, [e]⟩
  | call {inLoop n ty} (isCall : n.kind = .functionInvocation)
      (typed : HasType Γ n ty) : Obeys Γ result inLoop n
  | null {inLoop attr loc note ch} : Obeys Γ result inLoop ⟨.nullStatement, attr, loc, note, ch⟩
  | ifThen {inLoop attr loc note cond arm} (condition : HasType Γ cond .boolean)
      (obeys : Obeys Γ result inLoop arm) :
      Obeys Γ result inLoop ⟨.ifThen, attr, loc, note, [cond, arm]⟩
  | ifElse {inLoop attr loc note cond arm₁ arm₂} (condition : HasType Γ cond .boolean)
      (obeys₁ : Obeys Γ result inLoop arm₁) (obeys₂ : Obeys Γ result inLoop arm₂) :
      Obeys Γ result inLoop ⟨.ifElse, attr, loc, note, [cond, arm₁, arm₂]⟩
  | while {inLoop attr loc note cond body} (condition : HasType Γ cond .boolean)
      (obeys : Obeys Γ result true body) :
      Obeys Γ result inLoop ⟨.while, attr, loc, note, [cond, body]⟩
  | returnNothing {inLoop attr loc note} (isVoid : result = .void) :
      Obeys Γ result inLoop ⟨.return, attr, loc, note, []⟩
  | returnValue {inLoop attr loc note value} (hasResult : result ≠ .void)
      (typed : HasType Γ value result) :
      Obeys Γ result inLoop ⟨.return, attr, loc, note, [value]⟩
  | break {attr loc note} :
      Obeys Γ result true ⟨.break, attr, loc, note, []⟩

/-- The name and the type that a parameter or variable declaration brings. -/
def Node.binding? (n : Node) : Option (Bytes × Ty) :=
  match n.children with
  | [t, id] => if id.kind = .id then t.kind.valueType?.map (id.attr, ·) else none
  | _ => none

/-- The variables declared by a list of statements or of global declarations. -/
def declaredBy (ss : List Node) : List (Bytes × Ty) :=
  (ss.filter (·.kind = .variableDeclaration)).filterMap Node.binding?

/-- The direct statements of the outermost block keep the rules; a name can be used
behind its declaration. -/
inductive BodyObeys (result : Ty) : Names → List Node → Prop where
  | nil {Γ} : BodyObeys result Γ []
  | declaration {Γ s rest name ty}
      (isDeclaration : s.kind = .variableDeclaration) (binds : s.binding? = some (name, ty))
      (obeys : BodyObeys result (Γ.declare name ty) rest) : BodyObeys result Γ (s :: rest)
  | statement {Γ s rest} (first : Obeys Γ result false s)
      (obeys : BodyObeys result Γ rest) : BodyObeys result Γ (s :: rest)

/-- The function or entry point keeps the rules among the given global variables and
functions. -/
inductive FunctionObeys (globals : List (Bytes × Ty)) (funcs : List (Bytes × Signature)) :
    Node → Prop where
  | intro {kind attr loc note resultNode name listAttr listLoc listNote ps bodyAttr bodyLoc
      bodyNote ss result params}
      (isResult : resultNode.kind.type? = some result)
      (isParameter : ∀ p ∈ ps, p.kind = .formalParameter)
      (binds : ps.mapM Node.binding? = some params)
      (distinct : ((params ++ declaredBy ss).map Prod.fst).Nodup)
      (body : BodyObeys result ⟨params, globals, funcs⟩ ss) :
      FunctionObeys globals funcs ⟨kind, attr, loc, note, [resultNode, name,
        ⟨.formalParameterList, listAttr, listLoc, listNote, ps⟩,
        ⟨.block, bodyAttr, bodyLoc, bodyNote, ss⟩]⟩

/-- How many entry points global declarations hold. -/
def entryPoints (ds : List Node) : Nat :=
  ds.countP fun d => d.kind = .entryPointDeclaration

/-! ## A sample program -/

/-- Adds up the numbers to `n`, by a loop or by calling itself, and counts its calls:

    int triangle(int n, boolean loop) {
      int sum;
      calls = calls + 1;
      if (loop) {
        while (true) { if (n == 0) break; sum = sum + n; n = n - 1; }
        return sum;
      } else { if (n == 0) return 0; }
      return n + triangle(n - 1, loop && true);
    } -/
def sampleFunction : Node :=
  let id (name : String) : Node := .leaf .id (utf8 name) .nowhere
  let num (text : String) : Node := .leaf .num (utf8 text) .nowhere
  let binary (op : BinaryOp) (l r : Node) : Node := .branch (.binary op) .nowhere [l, r]
  let node (kind : Kind) (children : List Node) : Node := .branch kind .nowhere children
  let set (name : String) (value : Node) : Node :=
    node .statementExpression [binary .assign (id name) value]
  node .functionDeclaration [node .int [], id "triangle",
    node .formalParameterList [node .formalParameter [node .int [], id "n"],
      node .formalParameter [node .boolean [], id "loop"]],
    node .block [
      node .variableDeclaration [node .int [], id "sum"],
      set "calls" (binary .add (id "calls") (num "1")),
      node .ifElse [id "loop",
        node .block [
          node .while [node .trueLiteral [],
            node .block [
              node .ifThen [binary .eq (id "n") (num "0"), node .break []],
              set "sum" (binary .add (id "sum") (id "n")),
              set "n" (binary .sub (id "n") (num "1"))]],
          node .return [id "sum"]],
        node .block [
          node .ifThen [binary .eq (id "n") (num "0"), node .return [num "0"]]]],
      node .return [binary .add (id "n")
        (node .functionInvocation [id "triangle",
          node .argumentList [binary .sub (id "n") (num "1"),
            binary .and (id "loop") (node .trueLiteral [])]])]]]

/-- Prints what `triangle` gives in both ways and how often it was called. -/
def sampleProgram : Node :=
  let id (name : String) : Node := .leaf .id (utf8 name) .nowhere
  let num (text : String) : Node := .leaf .num (utf8 text) .nowhere
  let node (kind : Kind) (children : List Node) : Node := .branch kind .nowhere children
  let call (name : String) (args : List Node) : Node :=
    node .functionInvocation [id name, node .argumentList args]
  node .globalDeclarations [
    node .variableDeclaration [node .int [], id "calls"],
    sampleFunction,
    node .entryPointDeclaration [node .void [], id "main", node .formalParameterList [],
      node .block [
        call "printi" [call "triangle" [num "3", node .trueLiteral []]],
        call "prints" [.leaf .string (utf8 "\\t!") .nowhere],
        call "printi" [call "triangle" [num "2", node .falseLiteral []]],
        call "printi" [id "calls"]]]]

/-! ## Bindings -/

theorem Node.binding?_eq_some {n : Node} {name : Bytes} {ty : Ty} :
    n.binding? = some (name, ty) ↔
      ∃ t id, n.children = [t, id] ∧ id.kind = .id ∧ t.kind.valueType? = some ty ∧
        id.attr = name := by
  rcases n with ⟨kind, attr, loc, note, children⟩
  unfold binding?
  constructor
  · intro h
    match children, h with
    | [t, id], h =>
      by_cases hid : id.kind = .id
      · simp only [hid, if_true] at h
        obtain ⟨ty', hty, heq⟩ := Option.map_eq_some_iff.mp h
        cases heq
        exact ⟨t, id, rfl, hid, hty, rfl⟩
      · simp [hid] at h
  · rintro ⟨t, id, rfl, hid, hty, rfl⟩
    simp [hid, hty]

theorem Node.binding?_hasValue {n : Node} {v : Bytes × Ty} (binds : n.binding? = some v) :
    v.2.hasValue = true := by
  obtain ⟨t, id, -, -, hty, -⟩ := Node.binding?_eq_some.mp binds
  exact Kind.hasValue_of_valueType? hty

theorem bindings_cons {n : Node} {rest : List Node} {vs : List (Bytes × Ty)} :
    (n :: rest).mapM Node.binding? = some vs ↔
      ∃ v vs', n.binding? = some v ∧ rest.mapM Node.binding? = some vs' ∧ vs = v :: vs' := by
  rw [List.mapM_cons]
  constructor
  · intro h
    obtain ⟨v, hv, h⟩ := Option.bind_eq_some_iff.mp h
    obtain ⟨vs', hvs', heq⟩ := Option.bind_eq_some_iff.mp h
    cases heq
    exact ⟨v, vs', hv, hvs', rfl⟩
  · rintro ⟨v, vs', hv, hvs', rfl⟩
    simp [hv, hvs']

theorem bindings_length {ns : List Node} {vs : List (Bytes × Ty)}
    (binds : ns.mapM Node.binding? = some vs) : vs.length = ns.length := by
  induction ns generalizing vs with
  | nil =>
    cases binds
    rfl
  | cons n rest ih =>
    obtain ⟨v, vs', -, hrest, rfl⟩ := bindings_cons.mp binds
    rw [List.length_cons, List.length_cons, ih hrest]

theorem bindings_hasValue {ns : List Node} {vs : List (Bytes × Ty)}
    (binds : ns.mapM Node.binding? = some vs) : ∀ v ∈ vs, v.2.hasValue = true := by
  induction ns generalizing vs with
  | nil =>
    cases binds
    simp
  | cons n rest ih =>
    obtain ⟨v, vs', hv, hrest, rfl⟩ := bindings_cons.mp binds
    intro w hw
    rcases List.mem_cons.mp hw with rfl | hw
    · exact Node.binding?_hasValue hv
    · exact ih hrest w hw

theorem entryPoints_entryPoint {d : Node} {rest : List Node}
    (isEntry : d.kind = .entryPointDeclaration) :
    entryPoints (d :: rest) = entryPoints rest + 1 :=
  List.countP_cons_of_pos (by simp [isEntry])

theorem entryPoints_other {d : Node} {rest : List Node}
    (other : d.kind ≠ .entryPointDeclaration) : entryPoints (d :: rest) = entryPoints rest :=
  List.countP_cons_of_neg (by simp [other])

theorem entryPoints_pos {d : Node} {ds : List Node} (hd : d ∈ ds)
    (isEntry : d.kind = .entryPointDeclaration) : 0 < entryPoints ds :=
  List.countP_pos_iff.mpr ⟨d, hd, decide_eq_true isEntry⟩

theorem declaredBy_nil : declaredBy [] = [] := rfl

theorem declaredBy_declaration {s : Node} {rest : List Node} {v : Bytes × Ty}
    (isDeclaration : s.kind = .variableDeclaration) (binds : s.binding? = some v) :
    declaredBy (s :: rest) = v :: declaredBy rest := by
  simp [declaredBy, isDeclaration, binds]

theorem declaredBy_other {s : Node} {rest : List Node} (other : s.kind ≠ .variableDeclaration) :
    declaredBy (s :: rest) = declaredBy rest := by
  simp [declaredBy, other]

end TreeWat
