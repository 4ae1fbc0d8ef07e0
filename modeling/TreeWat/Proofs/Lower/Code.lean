import TreeWat.Check.Exit
import TreeWat.Lower.Program
import TreeWat.Proofs.Check.Globals
import TreeWat.Proofs.Typing
set_option autoImplicit false

/-!
# Lower: which code belongs to which tree

Lowering reads the notes that the checker left on the tree.  The relations of this
module say what code comes out, on the tree without notes: an expression together
with its type, a statement, a body, a function and a list of global declarations,
each with the literals and labels before and after it.  They carry the typing, so
that what is proved about generated code by induction needs nothing else.

Only whether a comment stands behind a piece of code is left open; its text and the
debug setting do not matter to what the code does.
-/

namespace TreeWat.Lower

open Wat (Code Op Arith Instr)

/-! ## Names in generated code -/

/-- The storage of a variable or parameter of the function with the given tag. -/
def localName (tag name : Bytes) : Bytes :=
  utf8 "$" ++ tag ++ name

/-- The storage of a global variable, or the generated name of a user's function. -/
def globalName (name : Bytes) : Bytes :=
  utf8 "$" ++ utf8 "G" ++ name

/-- The generated name of a library function. -/
def libraryName (name : Bytes) : Bytes :=
  utf8 "$" ++ utf8 "D" ++ name

/-- Pushes a variable. -/
def loadOp (tag : Bytes) (Γ : Names) (name : Bytes) : Op :=
  if (Γ.locals.lookup name).isSome then .localGet (localName tag name)
  else .globalGet (globalName name)

/-- Pops into a variable. -/
def storeOp (tag : Bytes) (Γ : Names) (name : Bytes) : Op :=
  if (Γ.locals.lookup name).isSome then .localSet (localName tag name)
  else .globalSet (globalName name)

/-- Calls a function of the user or else of the library; control does not come back
from the library's `halt`. -/
def callOps (Γ : Names) (name : Bytes) : Code :=
  if (Γ.funcs.lookup name).isSome then [.op (.call (globalName name))]
  else if name = utf8 "halt" then [.op (.call (libraryName name)), .op .unreachable]
  else [.op (.call (libraryName name))]

/-! ## Expressions -/

/-- Code with or without a comment behind it. -/
inductive Commented (code : Code) : Code → Prop where
  | bare : Commented code code
  | comment (text : Bytes) : Commented code (code ++ [.comment text])

/-- The right operand decides if the left one is true. -/
def andCode (left right : Code) : Code :=
  left ++ [.cond (right ++ [.op (.localSet scratch)]) [.op (.number 0), .op (.localSet scratch)],
    .op (.localGet scratch)]

/-- The right operand decides if the left one is false. -/
def orCode (left right : Code) : Code :=
  left ++ [.cond [.op (.number 1), .op (.localSet scratch)] (right ++ [.op (.localSet scratch)]),
    .op (.localGet scratch)]

mutual

/-- The code of an expression and the type of the expression. -/
inductive ExprCode (tag : Bytes) (Γ : Names) : Node → Ty → State → Code → State → Prop where
  | name {attr loc note ch ty s} (declared : Γ.var? attr = some ty) :
      ExprCode tag Γ ⟨.id, attr, loc, note, ch⟩ ty s [.op (loadOp tag Γ attr)] s
  | number {attr loc note ch s} :
      ExprCode tag Γ ⟨.num, attr, loc, note, ch⟩ .int s [.op (.const attr)] s
  | trueLiteral {attr loc note ch s} :
      ExprCode tag Γ ⟨.trueLiteral, attr, loc, note, ch⟩ .boolean s [.op (.number 1)] s
  | falseLiteral {attr loc note ch s} :
      ExprCode tag Γ ⟨.falseLiteral, attr, loc, note, ch⟩ .boolean s [.op (.number 0)] s
  | string {attr loc note ch s} :
      ExprCode tag Γ ⟨.string, attr, loc, note, ch⟩ .string s [] s
  | assignment {attr loc note name nameLoc nameNote nameCh r ty s code s'}
      (declared : Γ.var? name = some ty) (right : ExprCode tag Γ r ty s code s') :
      ExprCode tag Γ
        ⟨.binary .assign, attr, loc, note, [⟨.id, name, nameLoc, nameNote, nameCh⟩, r]⟩ ty s
        (code ++ [.op (storeOp tag Γ name), .op (loadOp tag Γ name)]) s'
  | arithmetic {op a attr loc note l r operand ty s left s₁ right s'}
      (isArith : arith? op = some a) (rule : op.typing operand operand = .ok ty)
      (first : ExprCode tag Γ l operand s left s₁)
      (second : ExprCode tag Γ r operand s₁ right s') :
      ExprCode tag Γ ⟨.binary op, attr, loc, note, [l, r]⟩ ty s
        (left ++ right ++ [.op (.arith a)]) s'
  | and {attr loc note l r s left s₁ right s'} (first : ExprCode tag Γ l .boolean s left s₁)
      (second : ExprCode tag Γ r .boolean s₁ right s') :
      ExprCode tag Γ ⟨.binary .and, attr, loc, note, [l, r]⟩ .boolean s (andCode left right) s'
  | or {attr loc note l r s left s₁ right s'} (first : ExprCode tag Γ l .boolean s left s₁)
      (second : ExprCode tag Γ r .boolean s₁ right s') :
      ExprCode tag Γ ⟨.binary .or, attr, loc, note, [l, r]⟩ .boolean s (orCode left right) s'
  | negation {attr loc note e s code s'} (operand : ExprCode tag Γ e .int s code s') :
      ExprCode tag Γ ⟨.unary .neg, attr, loc, note, [e]⟩ .int s
        ([.op (.number 0)] ++ code ++ [.op (.arith .sub)]) s'
  | complement {attr loc note e s code s'} (operand : ExprCode tag Γ e .boolean s code s') :
      ExprCode tag Γ ⟨.unary .not, attr, loc, note, [e]⟩ .boolean s (code ++ [.op .eqz]) s'
  | call {attr loc note name nameLoc nameNote nameCh listAttr listLoc listNote args sig s code s'}
      (resolved : Γ.func? name = some sig) (valued : sig.Valued)
      (arguments : ArgsCode tag Γ args sig.params s code s') :
      ExprCode tag Γ ⟨.functionInvocation, attr, loc, note,
        [⟨.id, name, nameLoc, nameNote, nameCh⟩, ⟨.argumentList, listAttr, listLoc, listNote, args⟩]⟩
        sig.result s (code ++ callOps Γ name) s'
  | print {attr loc note nameLoc nameNote nameCh listAttr listLoc listNote raw rawLoc rawNote rawCh
      s} (library : Γ.funcs.lookup (utf8 "prints") = none) :
      ExprCode tag Γ ⟨.functionInvocation, attr, loc, note,
        [⟨.id, utf8 "prints", nameLoc, nameNote, nameCh⟩,
          ⟨.argumentList, listAttr, listLoc, listNote, [⟨.string, raw, rawLoc, rawNote, rawCh⟩]⟩]⟩
        .void s
        [.op (.number s.literals.size), .op (.number (Wat.literalLength raw)),
          .op (.call (libraryName (utf8 "prints")))]
        { s with literals := s.literals.intern raw }

/-- The code of arguments, left to right. -/
inductive ArgsCode (tag : Bytes) (Γ : Names) :
    List Node → List Ty → State → Code → State → Prop where
  | nil {s} : ArgsCode tag Γ [] [] s [] s
  | cons {a rest ty tys s code code' s₁ more s'} (first : ExprCode tag Γ a ty s code s₁)
      (commented : Commented code code') (others : ArgsCode tag Γ rest tys s₁ more s') :
      ArgsCode tag Γ (a :: rest) (ty :: tys) s (code' ++ more) s'

end

/-! ## Statements -/

/-- Code whose value, if the type has one, is thrown away. -/
def dropValue (ty : Ty) (code : Code) : Code :=
  if ty.hasValue then code ++ [.op .drop] else code

mutual

/-- The code of a statement inside the loops with the given numbers, innermost
first, in a function with the given result. -/
inductive StmtCode (tag : Bytes) (Γ : Names) (result : Ty) :
    List Nat → Node → State → Code → State → Prop where
  | block {loops attr loc note ch s code s'}
      (statements : StmtsCode tag Γ result loops ch s code s') :
      StmtCode tag Γ result loops ⟨.block, attr, loc, note, ch⟩ s code s'
  | expression {loops attr loc note e ty s code code' s'} (value : ExprCode tag Γ e ty s code s')
      (commented : Commented code code') :
      StmtCode tag Γ result loops ⟨.statementExpression, attr, loc, note, [e]⟩ s
        (dropValue ty code') s'
  | call {loops n ty s code s'} (isCall : n.kind = .functionInvocation)
      (value : ExprCode tag Γ n ty s code s') :
      StmtCode tag Γ result loops n s (dropValue ty code) s'
  | null {loops attr loc note ch s} :
      StmtCode tag Γ result loops ⟨.nullStatement, attr, loc, note, ch⟩ s [] s
  | ifThen {loops attr loc note cond arm s test test' s₁ code s'}
      (condition : ExprCode tag Γ cond .boolean s test s₁) (commented : Commented test test')
      (whenTrue : StmtCode tag Γ result loops arm s₁ code s') :
      StmtCode tag Γ result loops ⟨.ifThen, attr, loc, note, [cond, arm]⟩ s
        (test' ++ [.cond code []]) s'
  | ifElse {loops attr loc note cond arm₁ arm₂ s test test' s₁ code₁ s₂ code₂ s'}
      (condition : ExprCode tag Γ cond .boolean s test s₁) (commented : Commented test test')
      (whenTrue : StmtCode tag Γ result loops arm₁ s₁ code₁ s₂)
      (whenFalse : StmtCode tag Γ result loops arm₂ s₂ code₂ s') :
      StmtCode tag Γ result loops ⟨.ifElse, attr, loc, note, [cond, arm₁, arm₂]⟩ s
        (test' ++ [.cond code₁ code₂]) s'
  | while {loops attr loc note cond body s test test' s₁ code s₂ again again' s'}
      (condition : ExprCode tag Γ cond .boolean { s with labels := s.labels + 1 } test s₁)
      (commented : Commented test test')
      (repeated : StmtCode tag Γ result (s.labels :: loops) body s₁ code s₂)
      (conditionAgain : ExprCode tag Γ cond .boolean s₂ again s')
      (commentedAgain : Commented again again') :
      StmtCode tag Γ result loops ⟨.while, attr, loc, note, [cond, body]⟩ s
        [whileLoop s.labels test' code again'] s'
  | returnNothing {loops attr loc note s} (isVoid : result = .void) :
      StmtCode tag Γ result loops ⟨.return, attr, loc, note, []⟩ s [.op .ret] s
  | returnValue {loops attr loc note value s code code' s'} (hasResult : result ≠ .void)
      (valueCode : ExprCode tag Γ value result s code s') (commented : Commented code code') :
      StmtCode tag Γ result loops ⟨.return, attr, loc, note, [value]⟩ s
        (code' ++ [.op .ret]) s'
  | break {num loops attr loc note s} :
      StmtCode tag Γ result (num :: loops) ⟨.break, attr, loc, note, []⟩ s
        [.op (.br (breakLabel num))] s

/-- The code of statements in order. -/
inductive StmtsCode (tag : Bytes) (Γ : Names) (result : Ty) :
    List Nat → List Node → State → Code → State → Prop where
  | nil {loops s} : StmtsCode tag Γ result loops [] s [] s
  | cons {loops n rest s code s₁ more s'} (first : StmtCode tag Γ result loops n s code s₁)
      (others : StmtsCode tag Γ result loops rest s₁ more s') :
      StmtsCode tag Γ result loops (n :: rest) s (code ++ more) s'

end

/-- The code of the direct statements of the outermost block. -/
inductive BodyCode (tag : Bytes) (result : Ty) :
    Names → List Node → State → Code → State → Prop where
  | nil {Γ s} : BodyCode tag result Γ [] s [] s
  | declaration {Γ n rest name ty s code s'} (isDeclaration : n.kind = .variableDeclaration)
      (binds : n.binding? = some (name, ty))
      (others : BodyCode tag result (Γ.declare name ty) rest s code s') :
      BodyCode tag result Γ (n :: rest) s code s'
  | statement {Γ n rest s code s₁ more s'} (first : StmtCode tag Γ result [] n s code s₁)
      (others : BodyCode tag result Γ rest s₁ more s') :
      BodyCode tag result Γ (n :: rest) s (code ++ more) s'

/-! ## Functions and programs -/

/-- A module function: the parameters of an entry point are plain locals, and the end
of a function with a result is never reached. -/
def funcOf (isEntry : Bool) (name tag : Bytes) (params declared : List (Bytes × Ty))
    (result : Ty) (code : Code) : Wat.Func Op where
  name := if isEntry then entryName else globalName name
  params := if isEntry then [] else params.map fun v => localName tag v.1
  result := decide (result ≠ .void)
  locals := scratch :: ((if isEntry then params else []) ++ declared).map fun v =>
    localName tag v.1
  body := if result ≠ .void then code ++ [.op .unreachable] else code

/-- The module function of a function or entry point with the given name and
signature, among the given global variables and functions. -/
inductive FunctionCode (globals : List (Bytes × Ty)) (funcs : List (Bytes × Signature)) :
    Node → Bytes → Signature → Wat.Func Op → State → State → Prop where
  | intro {kind attr loc note resultNode name nameLoc nameNote nameCh listAttr listLoc listNote ps
      bodyAttr bodyLoc bodyNote ss result params number tag scopes s code s'}
      (isResult : resultNode.kind.type? = some result)
      (binds : ps.mapM Node.binding? = some params)
      (distinct : ((params ++ declaredBy ss).map Prod.fst).Nodup)
      (isTag : tag = utf8 "L" ++ Bytes.ofNat number)
      (body : BodyCode tag result ⟨params, globals, funcs⟩ ss s code s')
      (builtins : scopes.builtins = .builtins) (userFuncs : scopes.globals.funcs = funcs)
      (returns : result ≠ .void → Check.exitOfAll scopes ss = .ok .alwaysReturns) :
      FunctionCode globals funcs
        ⟨kind, attr, loc, note, [resultNode, ⟨.id, name, nameLoc, nameNote, nameCh⟩,
          ⟨.formalParameterList, listAttr, listLoc, listNote, ps⟩,
          ⟨.block, bodyAttr, bodyLoc, bodyNote, ss⟩]⟩
        name ⟨params.map Prod.snd, result⟩
        (funcOf (kind = .entryPointDeclaration) name tag params (declaredBy ss) result code) s s'

/-- What global declarations contribute to a module, and which variables and
functions they declare, among all global variables and functions. -/
inductive DeclsCode (globals : List (Bytes × Ty)) (funcs : List (Bytes × Signature)) :
    List Node → List (Bytes × Ty) → List (Bytes × Signature) → Parts → State → State → Prop where
  | nil {s} : DeclsCode globals funcs [] [] [] ⟨[], [], false⟩ s s
  | entryPoint {d rest name sig f vs fs parts s s₁ s'} (isEntry : d.kind = .entryPointDeclaration)
      (isVoid : sig.result = .void) (code : FunctionCode globals funcs d name sig f s s₁)
      (others : DeclsCode globals funcs rest vs fs parts s₁ s') :
      DeclsCode globals funcs (d :: rest) vs fs
        { parts with funcs := f :: parts.funcs, hasEntry := true } s s'
  | function {d rest name sig f vs fs parts s s₁ s'} (isFunction : d.kind = .functionDeclaration)
      (code : FunctionCode globals funcs d name sig f s s₁)
      (others : DeclsCode globals funcs rest vs fs parts s₁ s') :
      DeclsCode globals funcs (d :: rest) vs ((name, sig) :: fs)
        { parts with funcs := f :: parts.funcs } s s'
  | global {d rest name ty vs fs parts s s'} (isDeclaration : d.kind = .variableDeclaration)
      (binds : d.binding? = some (name, ty))
      (others : DeclsCode globals funcs rest vs fs parts s s') :
      DeclsCode globals funcs (d :: rest) ((name, ty) :: vs) fs
        { parts with globals := globalName name :: parts.globals } s s'

/-- The state behind the two words of the runtime library. -/
def State.library : State :=
  ⟨(Wat.Literals.empty.intern (utf8 "true")).intern (utf8 "false"), 0⟩

/-- The runtime library: names do not depend on the program. -/
def library : List (Wat.Func Op) :=
  let env : Env := ⟨.initial, false⟩
  [printsFunc env, printiFunc env, printbFunc env (0, 4) (4, 5)]

/-- The module of the runtime library and the given parts, with the literals of the
given state. -/
def moduleWith (parts : Parts) (s : State) : Wat.Module Op where
  imports := libraryImports ⟨.initial, false⟩
  funcs := library ++ parts.funcs
  globals := parts.globals
  start := if parts.hasEntry then some entryName else none
  memory := Wat.pagesFor s.literals.size
  data := s.literals.data

/-- The module of a program. -/
inductive ModuleCode : Node → Wat.Module Op → State → Prop where
  | intro {attr loc note ds globals funcs parts s}
      (varNames : (globals.map Prod.fst).Nodup) (funcNames : (funcs.map Prod.fst).Nodup)
      (varTypes : ∀ v ∈ globals, v.2.hasValue = true) (funcTypes : ∀ v ∈ funcs, v.2.Valued)
      (code : DeclsCode globals funcs ds globals funcs parts .library s) :
      ModuleCode ⟨.globalDeclarations, attr, loc, note, ds⟩ (moduleWith parts s) s

end TreeWat.Lower
