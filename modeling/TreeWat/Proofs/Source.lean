import TreeWat.Proofs.Run
import TreeWat.Proofs.Typing
import TreeWat.Wat.Literals
set_option autoImplicit false

/-!
# Source: running a tree

The meaning of the language, by recursion on the tree and without reference to the
checker's notes or to generated code.  Operands and arguments are evaluated from left
to right, `&&` and `||` evaluate their right operand only if it decides, an assignment
yields the value it stores, and a `break` leaves the innermost loop.  A variable starts
at zero or false where it is declared; a name stands for a variable of the running
function if that has declared one, and else for a global one.  Every call runs with
variables of its own.

A call can only be made with one unit of fuel less, which also bounds how often each
loop of the callee repeats.
-/

namespace TreeWat.Source

/-! ## Values -/

/-- What an expression yields. -/
inductive Value where
  | int (w : Word)
  | bool (b : Bool)
  /-- A string literal as it is written, without its quotes. -/
  | text (raw : Bytes)
  | unit
  deriving DecidableEq

/-- What a variable holds before it is assigned. -/
def Value.initial : Ty → Value
  | .boolean => .bool false
  | _ => .int 0

/-- The byte that a backslash and the given byte stand for in a string literal. -/
def escape? (b : UInt8) : Option UInt8 :=
  if b = byte 'n' then some 10
  else if b = byte 't' then some 9
  else if b = byte 'r' then some 13
  else if b = byte 'b' then some 8
  else if b = byte 'f' then some 12
  else if b = byte '\\' ∨ b = byte '"' ∨ b = byte '\'' then some b
  else none

/-- The bytes that a string literal stands for, if it only uses escapes of the language;
a backslash at the very end stands for itself. -/
def literalBytes? : Bytes → Option Bytes
  | [] => some []
  | [b] => some [b]
  | b :: c :: rest =>
    if b = byte '\\' then
      match escape? c with
      | some e => (literalBytes? rest).map (e :: ·)
      | none => none
    else (literalBytes? (c :: rest)).map (b :: ·)

/-- Yields what is there. -/
def yieldOr {α : Type} (e : Stop) : Option α → Run α
  | some a => pure a
  | none => .stop e

/-- Combines two values by an operator that evaluates both. -/
def combine : BinaryOp → Value → Value → Run Value
  | .eq, .int a, .int b => pure (.bool (a == b))
  | .eq, .bool a, .bool b => pure (.bool (a == b))
  | .ne, .int a, .int b => pure (.bool (a != b))
  | .ne, .bool a, .bool b => pure (.bool (a != b))
  | .lt, .int a, .int b => pure (.bool (a.slt b))
  | .gt, .int a, .int b => pure (.bool (b.slt a))
  | .le, .int a, .int b => pure (.bool (a.sle b))
  | .ge, .int a, .int b => pure (.bool (b.sle a))
  | .add, .int a, .int b => pure (.int (a + b))
  | .sub, .int a, .int b => pure (.int (a - b))
  | .mul, .int a, .int b => pure (.int (a * b))
  | .div, .int a, .int b => yieldOr .division ((Word.divide? a b).map .int)
  | .mod, .int a, .int b => yieldOr .division ((Word.remainder? a b).map .int)
  | _, _, _ => .stop .wrong

/-- Applies an operator with one operand. -/
def apply : UnaryOp → Value → Run Value
  | .neg, .int a => pure (.int (-a))
  | .not, .bool b => pure (.bool !b)
  | _, _ => .stop .wrong

/-- The truth value. -/
def asBool : Value → Run Bool
  | .bool b => pure b
  | _ => .stop .wrong

/-! ## Expressions -/

/-- The variables of the running function, and what outlives its call. -/
structure Scene where
  locals : Bytes → Option Value
  store : Store Value

/-- The value of a variable. -/
def Scene.read (σ : Scene) (name : Bytes) : Option Value :=
  (σ.locals name).or (σ.store.globals name)

/-- Stores a value in a variable. -/
def Scene.write (σ : Scene) (name : Bytes) (v : Value) : Option Scene :=
  if (σ.locals name).isSome then some { σ with locals := assign σ.locals name v }
  else if (σ.store.globals name).isSome then
    some { σ with store := { σ.store with globals := assign σ.store.globals name v } }
  else none

/-- What a tree is run with: the meaning of calls, and how often a loop may repeat. -/
structure Interpreter where
  call : Bytes → List Value → Store Value → Run (Value × Store Value)
  fuel : Nat

mutual

/-- Evaluates an expression. -/
def eval (I : Interpreter) (n : Node) (σ : Scene) : Run (Value × Scene) :=
  match n with
  | ⟨kind, attr, _, _, children⟩ =>
    match kind with
    | .id => do
      let v ← yieldOr .wrong (σ.read attr)
      pure (v, σ)
    | .num => do
      let w ← yieldOr .numeral (Word.ofNumeral? attr)
      pure (.int w, σ)
    | .trueLiteral => pure (.bool true, σ)
    | .falseLiteral => pure (.bool false, σ)
    | .string => pure (.text attr, σ)
    | .binary op =>
      match children with
      | [l, r] =>
        match op with
        | .assign => do
          let (v, σ) ← eval I r σ
          let σ ← yieldOr .wrong (σ.write l.attr v)
          pure (v, σ)
        | .and => do
          let (v, σ) ← eval I l σ
          let b ← asBool v
          if b then eval I r σ else pure (.bool false, σ)
        | .or => do
          let (v, σ) ← eval I l σ
          let b ← asBool v
          if b then pure (.bool true, σ) else eval I r σ
        | op => do
          let (v₁, σ) ← eval I l σ
          let (v₂, σ) ← eval I r σ
          let v ← combine op v₁ v₂
          pure (v, σ)
      | _ => .stop .wrong
    | .unary op =>
      match children with
      | [e] => do
        let (v, σ) ← eval I e σ
        let v ← apply op v
        pure (v, σ)
      | _ => .stop .wrong
    | .functionInvocation =>
      match children with
      | [callee, ⟨_, _, _, _, args⟩] => do
        let (vs, σ) ← evalAll I args σ
        let (v, store) ← I.call callee.attr vs σ.store
        pure (v, { σ with store := store })
      | _ => .stop .wrong
    | _ => .stop .wrong

/-- Evaluates arguments, left to right. -/
def evalAll (I : Interpreter) (args : List Node) (σ : Scene) : Run (List Value × Scene) :=
  match args with
  | [] => pure ([], σ)
  | a :: rest => do
    let (v, σ) ← eval I a σ
    let (vs, σ) ← evalAll I rest σ
    pure (v :: vs, σ)

end

/-- Evaluates a condition. -/
def test (I : Interpreter) (cond : Node) (σ : Scene) : Run (Bool × Scene) := do
  let (v, σ) ← eval I cond σ
  let b ← asBool v
  pure (b, σ)

/-! ## Statements -/

/-- How a statement ends. -/
inductive Exit where
  | next
  | break
  | return (v : Value)

/-- Goes on behind a statement that ended in the usual way. -/
def afterNext (k : Scene → Run (Exit × Scene)) : Exit × Scene → Run (Exit × Scene)
  | (.next, σ) => k σ
  | p => pure p

/-- Goes on behind the body of a loop. -/
def afterBody (k : Scene → Run (Exit × Scene)) : Exit × Scene → Run (Exit × Scene)
  | (.next, σ) => k σ
  | (.break, σ) => pure (.next, σ)
  | p => pure p

/-- Runs a body as long as the condition is true. -/
def repeatWhile (condition : Scene → Run (Bool × Scene)) (body : Scene → Run (Exit × Scene)) :
    Nat → Scene → Run (Exit × Scene)
  | 0, σ => do
    let (b, σ) ← condition σ
    if b then .stop .outOfFuel else pure (.next, σ)
  | n + 1, σ => do
    let (b, σ) ← condition σ
    if b then body σ >>= afterBody (repeatWhile condition body n) else pure (.next, σ)

mutual

/-- Runs a statement. -/
def exec (I : Interpreter) (n : Node) (σ : Scene) : Run (Exit × Scene) :=
  match n with
  | ⟨kind, attr, loc, note, children⟩ =>
    match kind with
    | .block => execAll I children σ
    | .nullStatement => pure (.next, σ)
    | .variableDeclaration =>
      match Node.binding? ⟨kind, attr, loc, note, children⟩ with
      | some (name, ty) =>
        pure (.next, { σ with locals := assign σ.locals name (.initial ty) })
      | none => .stop .wrong
    | .statementExpression =>
      match children with
      | [e] => do
        let (_, σ) ← eval I e σ
        pure (.next, σ)
      | _ => .stop .wrong
    | .functionInvocation => do
      let (_, σ) ← eval I ⟨.functionInvocation, attr, loc, note, children⟩ σ
      pure (.next, σ)
    | .ifThen =>
      match children with
      | [cond, arm] => do
        let (b, σ) ← test I cond σ
        if b then exec I arm σ else pure (.next, σ)
      | _ => .stop .wrong
    | .ifElse =>
      match children with
      | [cond, arm₁, arm₂] => do
        let (b, σ) ← test I cond σ
        if b then exec I arm₁ σ else exec I arm₂ σ
      | _ => .stop .wrong
    | .while =>
      match children with
      | [cond, body] => repeatWhile (test I cond) (exec I body) I.fuel σ
      | _ => .stop .wrong
    | .return =>
      match children with
      | [] => pure (.return .unit, σ)
      | [value] => do
        let (v, σ) ← eval I value σ
        pure (.return v, σ)
      | _ => .stop .wrong
    | .break => pure (.break, σ)
    | _ => .stop .wrong

/-- Runs statements in order. -/
def execAll (I : Interpreter) (ss : List Node) (σ : Scene) : Run (Exit × Scene) :=
  match ss with
  | [] => pure (.next, σ)
  | s :: rest => exec I s σ >>= afterNext (execAll I rest)

end

/-! ## Functions and programs -/

/-- The parameters of a function or entry point. -/
def parameters? (d : Node) : Option (List (Bytes × Ty)) :=
  match d.children with
  | [_, _, ps, _] => ps.children.mapM Node.binding?
  | _ => none

/-- What a call yields at the end of the body; only a function without a result may end
without `return`. -/
def finish (result : Node) : Exit × Scene → Run (Value × Store Value)
  | (.next, σ) => if result.kind = .void then pure (.unit, σ.store) else .stop .wrong
  | (.return v, σ) => pure (v, σ.store)
  | (.break, _) => .stop .wrong

/-- Runs a function or entry point with the given arguments. -/
def enter (I : Interpreter) (d : Node) (args : List Value) (store : Store Value) :
    Run (Value × Store Value) :=
  match d.children, parameters? d with
  | [result, _, _, body], some ps =>
    if args.length = ps.length then
      execAll I body.children ⟨fun x => ((ps.map Prod.fst).zip args).lookup x, store⟩
        >>= finish result
    else .stop .wrong
  | _, _ => .stop .wrong

/-- Writes bytes and yields nothing. -/
def printing (bs : Bytes) (store : Store Value) : Run (Value × Store Value) := do
  Run.emitBytes bs
  pure (.unit, store)

/-- Calls a function of the library. -/
def builtin (name : Bytes) (args : List Value) (store : Store Value) :
    Run (Value × Store Value) :=
  match args with
  | [] =>
    if name = utf8 "halt" then .stop .halted
    else if name = utf8 "getchar" then pure (.int (store.input 0), store.advance)
    else .stop .wrong
  | [.int w] =>
    if name = utf8 "printc" then do
      Run.emit w
      pure (.unit, store)
    else if name = utf8 "printi" then printing (Bytes.ofInt w.toInt) store
    else .stop .wrong
  | [.bool b] =>
    if name = utf8 "printb" then printing (utf8 (if b then "true" else "false")) store
    else .stop .wrong
  | [.text raw] =>
    if name = utf8 "prints" then do
      let bs ← yieldOr .wrong (literalBytes? raw)
      printing bs store
    else .stop .wrong
  | _ => .stop .wrong

/-- The string literal that a call prints. -/
def printed? (n : Node) : Option Bytes :=
  match n.children with
  | [callee, args] =>
    match args.children with
    | [literal] =>
      if n.kind = .functionInvocation ∧ callee.attr = utf8 "prints" ∧ literal.kind = .string then
        some literal.attr
      else none
    | _ => none
  | _ => none

/-- Every string literal that is printed somewhere in the tree satisfies `P`. -/
def PrintedAll (P : Bytes → Prop) (n : Node) : Prop :=
  ∀ m ∈ n.preorder, ∀ raw, printed? m = some raw → P raw

/-- Whether a global declaration declares the function of that name. -/
def declares (name : Bytes) (d : Node) : Bool :=
  d.kind = .functionDeclaration &&
    match d.children with
    | _ :: id :: _ => id.attr = name
    | _ => false

/-- What a name calls: a function of the program, entered as said, or else one of the
library. -/
def resolve (ds : List Node) (enter : Node → List Value → Store Value → Run (Value × Store Value))
    (name : Bytes) : List Value → Store Value → Run (Value × Store Value) :=
  match ds.find? (declares name) with
  | some d => enter d
  | none => builtin name

/-- What calls do in statements that run with the given fuel. -/
def calls (ds : List Node) : Nat → Bytes → List Value → Store Value → Run (Value × Store Value)
  | 0 => resolve ds fun _ _ _ => .stop .outOfFuel
  | n + 1 => resolve ds (enter ⟨calls ds n, n⟩)

/-- The store of a program at the start. -/
def initialStore (ds : List Node) (input : Nat → Word) : Store Value :=
  ⟨fun name => ((declaredBy ds).lookup name).map Value.initial, input⟩

/-- Runs the entry point of a program; its parameters start as variables do. -/
def runProgram (root : Node) (input : Nat → Word) : Nat → Run Unit
  | 0 => .stop .outOfFuel
  | n + 1 => do
    let d ← yieldOr .wrong (root.children.find? (·.kind = .entryPointDeclaration))
    let ps ← yieldOr .wrong (parameters? d)
    let _ ← enter ⟨calls root.children n, n⟩ d (ps.map fun v => .initial v.2)
      (initialStore root.children input)
    pure ()

/-! ## Printed literals -/

theorem PrintedAll.child {P : Bytes → Prop} {n c : Node} (h : PrintedAll P n)
    (hc : c ∈ n.children) : PrintedAll P c :=
  fun m hm => h m (Node.mem_preorder_of_child hc hm)

/-- The literals of the language say how long they are. -/
theorem literalBytes?_length {raw bs : Bytes} (h : literalBytes? raw = some bs) :
    bs.length = Wat.literalLength raw := by
  induction raw using Wat.literalLength.induct generalizing bs with
  | case1 =>
    cases h
    rfl
  | case2 b =>
    cases h
    rfl
  | case3 c rest ih =>
    rw [literalBytes?, if_pos rfl] at h
    rw [Wat.literalLength, if_pos rfl]
    cases he : escape? c with
    | none =>
      rw [he] at h
      cases h
    | some e =>
      rw [he] at h
      obtain ⟨bs', hbs', rfl⟩ := Option.map_eq_some_iff.mp h
      rw [List.length_cons, ih hbs']
  | case4 b c rest isPlain ih =>
    rw [literalBytes?, if_neg isPlain] at h
    rw [Wat.literalLength, if_neg isPlain]
    obtain ⟨bs', hbs', rfl⟩ := Option.map_eq_some_iff.mp h
    rw [List.length_cons, ih hbs']

end TreeWat.Source
