import TreeWat.Proofs.Text.Numeral
import TreeWat.Wat.Basic
set_option autoImplicit false

/-!
# Wat: running a module

The meaning of the instructions that generated code uses, by recursion on the
instruction tree.  All values are `i32`.  A block, a loop and an arm of a conditional
start with an operand stack of their own, and a branch to a label throws away what is
on it.  Calls go through a table of callees; a function of the module can only call
with one unit of fuel less, which also bounds how often each of its loops starts
again.
-/

namespace TreeWat.Wat

/-! ## Instructions -/

/-- How control leaves code. -/
inductive Flow where
  | next
  | branch (label : Bytes)
  | ret
  deriving DecidableEq

/-- The state of a running function. -/
structure Config where
  stack : List Word
  locals : Bytes → Option Word
  store : Store Word

/-- What a call runs: how many arguments it takes, and what it does with them. -/
structure Callable where
  params : Nat
  run : List Word → Store Word → Run (Option Word × Store Word)

/-- What code can refer to, and how often a loop may start. -/
structure Machine where
  memory : Nat → Option UInt8
  callee : Bytes → Option Callable
  fuel : Nat

/-- Combines two numbers; there may be no quotient. -/
def Arith.apply : Arith → Word → Word → Option Word
  | .eq, a, b => some (Word.ofBool (a == b))
  | .ne, a, b => some (Word.ofBool (a != b))
  | .lt, a, b => some (Word.ofBool (a.slt b))
  | .gt, a, b => some (Word.ofBool (b.slt a))
  | .le, a, b => some (Word.ofBool (a.sle b))
  | .ge, a, b => some (Word.ofBool (b.sle a))
  | .add, a, b => some (a + b)
  | .sub, a, b => some (a - b)
  | .mul, a, b => some (a * b)
  | .div, a, b => Word.divide? a b
  | .rem, a, b => Word.remainder? a b

/-- Goes on with the next instruction and another stack. -/
def Config.goOn (c : Config) (stack : List Word) : Run (Flow × Config) :=
  pure (.next, { c with stack := stack })

/-- Pushes what is there. -/
def Config.pushOr (c : Config) (stack : List Word) (e : Stop) : Option Word → Run (Flow × Config)
  | some w => c.goOn (w :: stack)
  | none => .stop e

/-- Calls with the topmost values as arguments, the last argument on top. -/
def Config.call (c : Config) (f : Callable) : Run (Flow × Config) :=
  if c.stack.length < f.params then .stop .wrong
  else do
    let (result, store) ← f.run (c.stack.take f.params).reverse c.store
    pure (.next, { c with stack := result.toList ++ c.stack.drop f.params, store := store })

/-- Calls a function by its name. -/
def Machine.call (M : Machine) (name : Bytes) (c : Config) : Run (Flow × Config) :=
  match M.callee name with
  | some f => c.call f
  | none => .stop .wrong

/-- Runs a plain instruction. -/
def Op.exec (M : Machine) (o : Op) (c : Config) : Run (Flow × Config) :=
  match o with
  | .const literal => c.pushOr c.stack .numeral (Word.ofNumeral? literal)
  | .localGet name => c.pushOr c.stack .wrong (c.locals name)
  | .globalGet name => c.pushOr c.stack .wrong (c.store.globals name)
  | .call name => M.call name c
  | .br label => pure (.branch label, c)
  | .ret => pure (.ret, c)
  | .unreachable => .stop .unreachable
  | .localSet name =>
    match c.stack, c.locals name with
    | w :: stack, some _ => pure (.next, { c with stack, locals := assign c.locals name w })
    | _, _ => .stop .wrong
  | .globalSet name =>
    match c.stack, c.store.globals name with
    | w :: stack, some _ =>
      pure (.next,
        { c with stack, store := { c.store with globals := assign c.store.globals name w } })
    | _, _ => .stop .wrong
  | .brIf label =>
    match c.stack with
    | w :: stack => pure (if w = 0 then .next else .branch label, { c with stack })
    | [] => .stop .wrong
  | .arith a =>
    match c.stack with
    | w₂ :: w₁ :: stack => c.pushOr stack .division (a.apply w₁ w₂)
    | _ => .stop .wrong
  | .eqz =>
    match c.stack with
    | w :: stack => c.goOn (Word.ofBool (w == 0) :: stack)
    | [] => .stop .wrong
  | .load8 =>
    match c.stack with
    | w :: stack => c.pushOr stack .address ((M.memory w.toNat).map fun b => BitVec.ofNat 32 b.toNat)
    | [] => .stop .wrong
  | .drop =>
    match c.stack with
    | _ :: stack => c.goOn stack
    | [] => .stop .wrong

/-! ## Code -/

/-- Goes on behind code that control did not leave. -/
def afterNext (k : Config → Run (Flow × Config)) : Flow × Config → Run (Flow × Config)
  | (.next, c) => k c
  | p => pure p

/-- Leaves a block, or an arm of a conditional, which has no label. -/
def leave (label : Option Bytes) (stack : List Word) : Flow × Config → Run (Flow × Config)
  | (.next, c) => if c.stack = [] then c.goOn stack else .stop .wrong
  | (.branch l, c) => if label = some l then c.goOn stack else pure (.branch l, c)
  | (.ret, c) => pure (.ret, c)

/-- Starts a loop, and starts it again when its body branches to its label. -/
def repeatLoop (label : Bytes) (body : Config → Run (Flow × Config)) :
    Nat → Config → Run (Flow × Config)
  | 0, _ => .stop .outOfFuel
  | n + 1, c => do
    let p ← body { c with stack := [] }
    match p with
    | (.branch l, c') =>
      if l = label then repeatLoop label body n { c' with stack := c.stack }
      else pure (.branch l, c')
    | p => leave none c.stack p

mutual

/-- Runs one element of a body. -/
def Instr.exec (M : Machine) (i : Instr Op) (c : Config) : Run (Flow × Config) :=
  match i with
  | .op o => o.exec M c
  | .comment _ => c.goOn c.stack
  | .block label body => do
    let p ← execCode M body { c with stack := [] }
    leave (some label) c.stack p
  | .loop label body => repeatLoop label (execCode M body) M.fuel c
  | .cond whenTrue whenFalse =>
    match c.stack with
    | w :: stack =>
      (if w = 0 then execCode M whenFalse { c with stack := [] }
        else execCode M whenTrue { c with stack := [] }) >>= leave none stack
    | [] => .stop .wrong

/-- Runs code. -/
def execCode (M : Machine) (code : List (Instr Op)) (c : Config) : Run (Flow × Config) :=
  match code with
  | [] => c.goOn c.stack
  | i :: rest => do
    let p ← i.exec M c
    afterNext (execCode M rest) p

end

/-! ## Functions -/

/-- Parameters hold the arguments, and other locals start at zero. -/
def Func.bound (f : Func Op) (args : List Word) : Bytes → Option Word :=
  fun name => (f.params.zip args ++ f.locals.map (·, 0)).lookup name

/-- The result at the end of a body. -/
def Func.finish (f : Func Op) : Flow × Config → Run (Option Word × Store Word)
  | (.next, c) =>
    match f.result, c.stack with
    | false, [] => pure (none, c.store)
    | true, [w] => pure (some w, c.store)
    | _, _ => .stop .wrong
  | (.ret, c) =>
    match f.result, c.stack with
    | false, _ => pure (none, c.store)
    | true, w :: _ => pure (some w, c.store)
    | true, [] => .stop .wrong
  | (.branch _, _) => .stop .wrong

/-- Runs a function. -/
def Func.run (f : Func Op) (M : Machine) (args : List Word) (store : Store Word) :
    Run (Option Word × Store Word) := do
  let p ← execCode M f.body ⟨[], f.bound args, store⟩
  f.finish p

/-- What a name calls: something outside of the given functions, or else one of them,
which is entered as said. -/
def link (outside : Bytes → Option Callable) (funcs : List (Func Op))
    (enter : Func Op → List Word → Store Word → Run (Option Word × Store Word)) (name : Bytes) :
    Option Callable :=
  match outside name with
  | some f => some f
  | none => (funcs.find? (·.name = name)).map fun f => ⟨f.params.length, enter f⟩

/-- The callees of code that runs with the given fuel. -/
def callees (memory : Nat → Option UInt8) (outside : Bytes → Option Callable)
    (funcs : List (Func Op)) : Nat → Bytes → Option Callable
  | 0 => link outside funcs fun _ _ _ => .stop .outOfFuel
  | n + 1 => link outside funcs fun f => f.run ⟨memory, callees memory outside funcs n, n⟩

/-! ## Modules -/

/-- Writes the number it is called with. -/
def putchar : Callable where
  params := 1
  run args store := do
    args.forM Run.emit
    pure (none, store)

/-- What the host provides: the end of the program, the next number, and a place to
write numbers. -/
def Import.callable? (i : Import) : Option Callable :=
  if i.module ≠ utf8 "host" then none
  else if i.field = utf8 "exit" then some ⟨0, fun _ _ => .stop .halted⟩
  else if i.field = utf8 "getchar" then
    some ⟨0, fun _ store => pure (some (store.input 0), store.advance)⟩
  else if i.field = utf8 "putchar" then some putchar
  else none

/-- What the imports of a module call. -/
def Module.imported (m : Module Op) (name : Bytes) : Option Callable :=
  (m.imports.find? (·.name = name)).bind Import.callable?

/-- The value of a hexadecimal digit. -/
def hexValue? (b : UInt8) : Option Nat :=
  if byte '0' ≤ b ∧ b ≤ byte '9' then some (b.toNat - 48)
  else if byte 'a' ≤ b ∧ b ≤ byte 'f' then some (b.toNat - 87)
  else if byte 'A' ≤ b ∧ b ≤ byte 'F' then some (b.toNat - 55)
  else none

/-- The byte that the format writes as a backslash and a letter or a sign. -/
def escaped? (b : UInt8) : Option UInt8 :=
  if b = byte 't' then some 9
  else if b = byte 'n' then some 10
  else if b = byte 'r' then some 13
  else if b = byte '"' ∨ b = byte '\'' ∨ b = byte '\\' then some b
  else none

/-- The bytes of a string of the format, without the escapes for characters beyond
ASCII. -/
def decodeText : Bytes → Option Bytes
  | [] => some []
  | [b] => if b = byte '\\' ∨ b = byte '"' ∨ b < 32 ∨ b = 127 then none else some [b]
  | b :: c :: rest =>
    if b = byte '\\' then
      match escaped? c, rest with
      | some e, rest => (decodeText rest).map (e :: ·)
      | none, d :: rest =>
        match hexValue? c, hexValue? d with
        | some high, some low => (decodeText rest).map ((high * 16 + low).toUInt8 :: ·)
        | _, _ => none
      | none, [] => none
    else if b = byte '"' ∨ b < 32 ∨ b = 127 then none
    else (decodeText (c :: rest)).map (b :: ·)

/-- Memory with bytes copied to an offset. -/
def copyTo (offset : Nat) (bytes : Bytes) (memory : Nat → Option UInt8) (a : Nat) :
    Option UInt8 :=
  if offset ≤ a ∧ a < offset + bytes.length then bytes[a - offset]? else memory a

/-- Copies a piece of data to memory of the given size, if it is well written and fits. -/
def Data.copy? (size : Nat) (memory : Nat → Option UInt8) (d : Data) :
    Option (Nat → Option UInt8) :=
  match decodeText d.text with
  | some bytes =>
    if 0 ≤ d.offset ∧ d.offset.toNat + bytes.length ≤ size then
      some (copyTo d.offset.toNat bytes memory)
    else none
  | none => none

/-- The memory of a module at the start: zeros, and then the data in order. -/
def Module.memory? (m : Module Op) : Option (Nat → Option UInt8) :=
  let size := m.memory.toNat * pageSize
  m.data.foldlM (Data.copy? size) fun a => if a < size then some 0 else none

/-- The store of a module at the start. -/
def Module.store (m : Module Op) (input : Nat → Word) : Store Word :=
  ⟨fun name => if name ∈ m.globals then some 0 else none, input⟩

/-- Runs the start function of a module among the given callees. -/
def Module.runAmong (m : Module Op) (callee : Bytes → Option Callable) (input : Nat → Word) :
    Run Unit :=
  match m.start with
  | none => pure ()
  | some name =>
    match callee name with
    | some f =>
      if f.params = 0 then do
        let _ ← f.run [] (m.store input)
        pure ()
      else .stop .wrong
    | none => .stop .wrong

/-- Runs a module on what the host hands in. -/
def Module.run (m : Module Op) (input : Nat → Word) (fuel : Nat) : Run Unit :=
  match m.memory? with
  | some memory => m.runAmong (callees memory m.imported m.funcs fuel) input
  | none => .stop .wrong

/-! ## Sequences -/

variable {M : Machine}

theorem execCode_nil (c : Config) : execCode M [] c = pure (.next, c) := by
  rw [execCode]
  rfl

theorem execCode_cons (i : Instr Op) (rest : Code) (c : Config) :
    execCode M (i :: rest) c = i.exec M c >>= afterNext (execCode M rest) := by
  rw [execCode]

theorem afterNext_next (k : Config → Run (Flow × Config)) (c : Config) :
    afterNext k (.next, c) = k c := rfl

theorem afterNext_pure : afterNext (fun c => pure (.next, c)) = pure := by
  funext p
  rcases p with ⟨_ | _ | _, c⟩ <;> rfl

theorem bind_afterNext_nil (r : Run (Flow × Config)) : r >>= afterNext (execCode M []) = r := by
  have hlast : execCode M [] = fun c => pure (.next, c) := funext execCode_nil
  rw [hlast, afterNext_pure]
  exact Run.bind_done r

theorem afterNext_bind (k : Config → Run (Flow × Config)) (k' : Config → Run (Flow × Config))
    (p : Flow × Config) :
    afterNext k p >>= afterNext k' = afterNext (fun c => k c >>= afterNext k') p := by
  rcases p with ⟨_ | _ | _, c⟩ <;> rfl

theorem execCode_append (code₁ code₂ : Code) (c : Config) :
    execCode M (code₁ ++ code₂) c = execCode M code₁ c >>= afterNext (execCode M code₂) := by
  induction code₁ generalizing c with
  | nil =>
    rw [execCode_nil]
    rfl
  | cons i rest ih =>
    rw [List.cons_append, execCode_cons, execCode_cons, Run.bind_bind]
    congr 1
    funext p
    rw [afterNext_bind]
    congr 1
    funext c'
    exact ih c'

/-! ## Single instructions

What an instruction in front of others does, if it does not stop. -/

section Instructions

variable {locals : Bytes → Option Word} {store : Store Word} {stack : List Word} {rest : Code}

theorem execCode_op (o : Op) (rest : Code) (c : Config) :
    execCode M (.op o :: rest) c = o.exec M c >>= afterNext (execCode M rest) := by
  rw [execCode_cons, Instr.exec]

theorem exec_const {literal : Bytes} {w : Word} (h : Word.ofNumeral? literal = some w) :
    execCode M (.op (.const literal) :: rest) ⟨stack, locals, store⟩ =
      execCode M rest ⟨w :: stack, locals, store⟩ := by
  simp only [execCode_op, Op.exec, h]
  rfl

theorem exec_const_none {literal : Bytes} (h : Word.ofNumeral? literal = none) (c : Config) :
    execCode M (.op (.const literal) :: rest) c = .stop .numeral := by
  simp only [execCode_op, Op.exec, h]
  rfl

theorem exec_number {i : Int} (low : -2 ^ 31 ≤ i) (high : i < 2 ^ 32) :
    execCode M (.op (.number i) :: rest) ⟨stack, locals, store⟩ =
      execCode M rest ⟨BitVec.ofInt 32 i :: stack, locals, store⟩ :=
  exec_const (Word.ofNumeral?_ofInt low high)

theorem exec_localGet {name : Bytes} {w : Word} (h : locals name = some w) :
    execCode M (.op (.localGet name) :: rest) ⟨stack, locals, store⟩ =
      execCode M rest ⟨w :: stack, locals, store⟩ := by
  simp only [execCode_op, Op.exec, h]
  rfl

theorem exec_globalGet {name : Bytes} {w : Word} (h : store.globals name = some w) :
    execCode M (.op (.globalGet name) :: rest) ⟨stack, locals, store⟩ =
      execCode M rest ⟨w :: stack, locals, store⟩ := by
  simp only [execCode_op, Op.exec, h]
  rfl

theorem exec_localSet {name : Bytes} {w w' : Word} (h : locals name = some w') :
    execCode M (.op (.localSet name) :: rest) ⟨w :: stack, locals, store⟩ =
      execCode M rest ⟨stack, assign locals name w, store⟩ := by
  simp only [execCode_op, Op.exec, h]
  rfl

theorem exec_globalSet {name : Bytes} {w w' : Word} (h : store.globals name = some w') :
    execCode M (.op (.globalSet name) :: rest) ⟨w :: stack, locals, store⟩ =
      execCode M rest ⟨stack, locals, { store with globals := assign store.globals name w }⟩ := by
  simp only [execCode_op, Op.exec, h]
  rfl

theorem exec_arith {a : Arith} {w₁ w₂ w : Word} (h : a.apply w₁ w₂ = some w) :
    execCode M (.op (.arith a) :: rest) ⟨w₂ :: w₁ :: stack, locals, store⟩ =
      execCode M rest ⟨w :: stack, locals, store⟩ := by
  simp only [execCode_op, Op.exec, h]
  rfl

theorem exec_arith_none {a : Arith} {w₁ w₂ : Word} (h : a.apply w₁ w₂ = none) :
    execCode M (.op (.arith a) :: rest) ⟨w₂ :: w₁ :: stack, locals, store⟩ =
      .stop .division := by
  simp only [execCode_op, Op.exec, h]
  rfl

theorem exec_eqz {w : Word} :
    execCode M (.op .eqz :: rest) ⟨w :: stack, locals, store⟩ =
      execCode M rest ⟨Word.ofBool (w == 0) :: stack, locals, store⟩ := by
  rw [execCode_op, Op.exec]
  rfl

theorem exec_drop {w : Word} :
    execCode M (.op .drop :: rest) ⟨w :: stack, locals, store⟩ =
      execCode M rest ⟨stack, locals, store⟩ := by
  rw [execCode_op, Op.exec]
  rfl

theorem exec_load8 {w : Word} {b : UInt8} (h : M.memory w.toNat = some b) :
    execCode M (.op .load8 :: rest) ⟨w :: stack, locals, store⟩ =
      execCode M rest ⟨BitVec.ofNat 32 b.toNat :: stack, locals, store⟩ := by
  simp only [execCode_op, Op.exec, h]
  rfl

theorem exec_load8_address {w : Word} (h : M.memory w.toNat = none) :
    execCode M (.op .load8 :: rest) ⟨w :: stack, locals, store⟩ = .stop .address := by
  simp only [execCode_op, Op.exec, h]
  rfl

theorem exec_br {label : Bytes} (c : Config) :
    execCode M (.op (.br label) :: rest) c = pure (.branch label, c) := by
  rw [execCode_op, Op.exec]
  rfl

theorem exec_brIf_zero {label : Bytes} :
    execCode M (.op (.brIf label) :: rest) ⟨0 :: stack, locals, store⟩ =
      execCode M rest ⟨stack, locals, store⟩ := by
  rw [execCode_op, Op.exec]
  rfl

theorem exec_brIf {label : Bytes} {w : Word} (h : w ≠ 0) :
    execCode M (.op (.brIf label) :: rest) ⟨w :: stack, locals, store⟩ =
      pure (.branch label, ⟨stack, locals, store⟩) := by
  rw [execCode_op, Op.exec]
  simp only [if_neg h]
  rfl

theorem exec_ret (c : Config) : execCode M (.op .ret :: rest) c = pure (.ret, c) := by
  rw [execCode_op, Op.exec]
  rfl

theorem exec_comment {text : Bytes} (c : Config) :
    execCode M (.comment text :: rest) c = execCode M rest c := by
  rw [execCode_cons, Instr.exec]
  rfl

theorem leave_next {label : Option Bytes} :
    leave label stack (.next, ⟨[], locals, store⟩) = pure (.next, ⟨stack, locals, store⟩) := by
  simp [leave, Config.goOn]

theorem leave_branch {label : Bytes} {c : Config} :
    leave (some label) stack (.branch label, c) = c.goOn stack := by
  simp [leave]

theorem exec_block {label : Bytes} {body : Code} :
    execCode M (.block label body :: rest) ⟨stack, locals, store⟩ =
      execCode M body ⟨[], locals, store⟩ >>= leave (some label) stack
        >>= afterNext (execCode M rest) := by
  rw [execCode_cons, Instr.exec]

theorem exec_loop {label : Bytes} {body : Code} (c : Config) :
    execCode M (.loop label body :: rest) c =
      repeatLoop label (execCode M body) M.fuel c >>= afterNext (execCode M rest) := by
  rw [execCode_cons, Instr.exec]

theorem exec_cond_zero {whenTrue whenFalse : Code} :
    execCode M (.cond whenTrue whenFalse :: rest) ⟨0 :: stack, locals, store⟩ =
      execCode M whenFalse ⟨[], locals, store⟩ >>= leave none stack
        >>= afterNext (execCode M rest) := by
  rw [execCode_cons, Instr.exec]
  rfl

theorem exec_cond {whenTrue whenFalse : Code} {w : Word} (h : w ≠ 0) :
    execCode M (.cond whenTrue whenFalse :: rest) ⟨w :: stack, locals, store⟩ =
      execCode M whenTrue ⟨[], locals, store⟩ >>= leave none stack
        >>= afterNext (execCode M rest) := by
  rw [execCode_cons, Instr.exec]
  simp only [if_neg h]

/-- A call pops its arguments and pushes its result. -/
theorem exec_call {name : Bytes} {f : Callable} {args : List Word}
    (callee : M.callee name = some f) (count : f.params = args.length) :
    execCode M (.op (.call name) :: rest) ⟨args.reverse ++ stack, locals, store⟩ =
      f.run args store >>= fun p => execCode M rest ⟨p.1.toList ++ stack, locals, p.2⟩ := by
  have htake : ((args.reverse ++ stack).take args.length).reverse = args := by
    rw [← List.length_reverse, List.take_left', List.reverse_reverse]
    rfl
  have hdrop : (args.reverse ++ stack).drop args.length = stack := by
    rw [← List.length_reverse, List.drop_left']
    rfl
  have henough : ¬ (args.reverse ++ stack).length < args.length := by simp
  rw [execCode_op, Op.exec, Machine.call, callee]
  simp only [Config.call, count, if_neg henough, htake, hdrop, Run.bind_bind]
  rfl

end Instructions

/-! ## More fuel -/

/-- The second callee does what the first one does, for at least as long. -/
structure Callable.Extends (f g : Callable) : Prop where
  params : f.params = g.params
  run : ∀ args store, args.length = f.params → (f.run args store).Extends (g.run args store)

theorem Callable.Extends.refl (f : Callable) : f.Extends f :=
  ⟨rfl, fun _ _ _ => .same⟩

theorem Callable.Extends.trans {f g h : Callable} (hfg : f.Extends g) (hgh : g.Extends h) :
    f.Extends h where
  params := hfg.params.trans hgh.params
  run args store hargs :=
    (hfg.run args store hargs).trans (hgh.run args store (hargs.trans hfg.params))

theorem extends_refl (f : Option Callable) : Option.Rel Callable.Extends f f := by
  cases f with
  | none => exact .none
  | some f => exact .some (.refl f)

/-- Every callee of the first table has one in the second that does the same, for at
least as long. -/
def CalleesExtend (φ ψ : Bytes → Option Callable) : Prop :=
  ∀ name, Option.Rel Callable.Extends (φ name) (ψ name)

/-- The second machine is the first one with more fuel. -/
structure Machine.Extends (M N : Machine) : Prop where
  memory : M.memory = N.memory
  callee : CalleesExtend M.callee N.callee
  fuel : M.fuel ≤ N.fuel

variable {N : Machine}

theorem Config.call_extends {f g : Callable} (h : f.Extends g) (c : Config) :
    (c.call f).Extends (c.call g) := by
  unfold Config.call
  rw [← h.params]
  by_cases hshort : c.stack.length < f.params
  · rw [if_pos hshort, if_pos hshort]
    exact .same
  · rw [if_neg hshort, if_neg hshort]
    have hargs : (c.stack.take f.params).reverse.length = f.params := by simp; omega
    exact .bind (h.run _ _ hargs) fun _ => .same

theorem Op.exec_extends (h : M.Extends N) (o : Op) (c : Config) :
    (o.exec M c).Extends (o.exec N c) := by
  cases o with
  | call name =>
    show (M.call name c).Extends (N.call name c)
    unfold Machine.call
    have hcallee := h.callee name
    generalize M.callee name = f at hcallee
    generalize N.callee name = g at hcallee
    cases hcallee with
    | some hfg => exact c.call_extends hfg
    | none => exact .same
  | load8 =>
    unfold Op.exec
    rw [h.memory]
    exact .same
  | _ => exact .same

theorem afterNext_extends {k k' : Config → Run (Flow × Config)}
    (h : ∀ c, (k c).Extends (k' c)) (p : Flow × Config) :
    (afterNext k p).Extends (afterNext k' p) := by
  rcases p with ⟨_ | _ | _, c⟩
  · exact h c
  · exact .same
  · exact .same

theorem repeatLoop_extends {label : Bytes} {k k' : Config → Run (Flow × Config)}
    (h : ∀ c, (k c).Extends (k' c)) {n n' : Nat} (fuel : n ≤ n') (c : Config) :
    (repeatLoop label k n c).Extends (repeatLoop label k' n' c) := by
  induction n generalizing n' c with
  | zero => exact .outOfFuel _
  | succ n ih =>
    obtain ⟨m, rfl⟩ : ∃ m, n' = m + 1 := ⟨n' - 1, by omega⟩
    rw [repeatLoop, repeatLoop]
    refine .bind (h _) fun p => ?_
    rcases p with ⟨_ | l | _, c'⟩
    · exact .same
    · show Run.Extends (if l = label then _ else _) (if l = label then _ else _)
      by_cases hl : l = label
      · rw [if_pos hl, if_pos hl]
        exact ih (by omega) _
      · rw [if_neg hl, if_neg hl]
        exact .same
    · exact .same

mutual

theorem Instr.exec_extends (h : M.Extends N) (i : Instr Op) (c : Config) :
    (i.exec M c).Extends (i.exec N c) := by
  cases i with
  | op o =>
    rw [Instr.exec, Instr.exec]
    exact o.exec_extends h c
  | comment text =>
    rw [Instr.exec, Instr.exec]
    exact .same
  | block label body =>
    rw [Instr.exec, Instr.exec]
    exact .bind (execCode_extends h body _) fun _ => .same
  | loop label body =>
    rw [Instr.exec, Instr.exec]
    exact repeatLoop_extends (execCode_extends h body) h.fuel c
  | cond whenTrue whenFalse =>
    rw [Instr.exec, Instr.exec]
    cases c.stack with
    | nil => exact .same
    | cons w stack =>
      refine .bind ?_ fun _ => .same
      by_cases hw : w = 0
      · rw [if_pos hw, if_pos hw]
        exact execCode_extends h whenFalse _
      · rw [if_neg hw, if_neg hw]
        exact execCode_extends h whenTrue _

theorem execCode_extends (h : M.Extends N) (code : Code) (c : Config) :
    (execCode M code c).Extends (execCode N code c) := by
  cases code with
  | nil =>
    rw [execCode, execCode]
    exact .same
  | cons i rest =>
    rw [execCode, execCode]
    exact .bind (Instr.exec_extends h i c) (afterNext_extends (execCode_extends h rest))

end

theorem Func.run_extends (h : M.Extends N) (f : Func Op) (args : List Word)
    (store : Store Word) : (f.run M args store).Extends (f.run N args store) :=
  .bind (execCode_extends h f.body _) fun _ => .same

theorem link_extends {outside outside' : Bytes → Option Callable} {funcs : List (Func Op)}
    {enter enter' : Func Op → List Word → Store Word → Run (Option Word × Store Word)}
    (henter : ∀ f args store, (enter f args store).Extends (enter' f args store)) {name : Bytes}
    (houtside : Option.Rel Callable.Extends (outside name) (outside' name)) :
    Option.Rel Callable.Extends (link outside funcs enter name)
      (link outside' funcs enter' name) := by
  unfold link
  generalize outside name = f at houtside
  generalize outside' name = g at houtside
  cases houtside with
  | some hfg => exact .some hfg
  | none =>
    cases funcs.find? (·.name = name) with
    | none => exact .none
    | some f => exact .some ⟨rfl, fun args store _ => henter f args store⟩

section Callees

variable {memory : Nat → Option UInt8} {outside outside' : Bytes → Option Callable}
  {funcs : List (Func Op)}

/-- What lies outside of the functions of a module may be exchanged, and the fuel raised:
it is enough that the callees of every name whose meaning outside differs do the same, for
at least as long. -/
theorem callees_exchange (delay : Nat)
    (h : ∀ name, Option.Rel Callable.Extends (outside name) (outside' name) ∨
      ∀ n, Option.Rel Callable.Extends (callees memory outside funcs n name)
        (callees memory outside' funcs (n + delay) name)) (n : Nat) :
    CalleesExtend (callees memory outside funcs n) (callees memory outside' funcs (n + delay)) := by
  induction n with
  | zero =>
    intro name
    rcases h name with houtside | hname
    · rcases delay with _ | delay
      · exact link_extends (fun _ _ _ => .same) houtside
      · rw [Nat.zero_add]
        exact link_extends (fun _ _ _ => .outOfFuel _) houtside
    · exact hname 0
  | succ n ih =>
    intro name
    rcases h name with houtside | hname
    · have hmachine : Machine.Extends ⟨memory, callees memory outside funcs n, n⟩
          ⟨memory, callees memory outside' funcs (n + delay), n + delay⟩ :=
        ⟨rfl, ih, Nat.le_add_right n delay⟩
      rw [Nat.add_right_comm]
      exact link_extends (fun f args store => f.run_extends hmachine args store) houtside
    · exact hname (n + 1)

/-- Callees with more fuel do the same, for at least as long. -/
theorem callees_extend (memory : Nat → Option UInt8) (outside : Bytes → Option Callable)
    (funcs : List (Func Op)) {n n' : Nat} (fuel : n ≤ n') :
    CalleesExtend (callees memory outside funcs n) (callees memory outside funcs n') := by
  obtain ⟨delay, rfl⟩ := Nat.exists_eq_add_of_le fuel
  exact callees_exchange delay (fun name => .inl (extends_refl (outside name))) n

end Callees

theorem Module.runAmong_start {m : Module Op} {callee : Bytes → Option Callable} {name : Bytes}
    {f : Callable} (hstart : m.start = some name) (hcallee : callee name = some f)
    (hparams : f.params = 0) (input : Nat → Word) :
    m.runAmong callee input = f.run [] (m.store input) >>= fun _ => pure () := by
  simp only [Module.runAmong, hstart, hcallee, hparams, if_true]

theorem Module.runAmong_extends {φ ψ : Bytes → Option Callable} (h : CalleesExtend φ ψ)
    (m : Module Op) (input : Nat → Word) : (m.runAmong φ input).Extends (m.runAmong ψ input) := by
  unfold Module.runAmong
  cases m.start with
  | none => exact .same
  | some name =>
    have hname := h name
    dsimp only
    generalize φ name = f at hname
    generalize ψ name = g at hname
    cases hname with
    | none => exact .same
    | @some f g hfg =>
      dsimp only
      rw [← hfg.params]
      by_cases hparams : f.params = 0
      · rw [if_pos hparams, if_pos hparams]
        exact .bind (hfg.run _ _ (by simp [hparams])) fun _ => .same
      · rw [if_neg hparams, if_neg hparams]
        exact .same

/-- More fuel does not change what a module does. -/
theorem Module.run_steady (m : Module Op) (input : Nat → Word) : Run.Steady (m.run input) := by
  intro n n' fuel
  unfold Module.run
  cases m.memory? with
  | none => exact .same
  | some memory => exact m.runAmong_extends (callees_extend memory m.imported m.funcs fuel) input

end TreeWat.Wat
