import TreeWat.Proofs.Lower.Accepted
import TreeWat.Proofs.Lower.Simulation.Expression
import TreeWat.Proofs.Wat.Frame
set_option autoImplicit false

/-!
# Lower: expressions in every state of the machine

The simulation of expressions starts from related states.  Here it starts from any state
of the machine in which the variables have values: whatever is on the operand stack, in
the scratch local and in locals that no variable in scope stands for.  The scene to
compare with is read off the state.

All nested `&&` and `||` of a function share one scratch local.  Their code always sets it
before it reads it, so that what was in it does not matter.
-/

namespace TreeWat.Source

/-- An interpreter whose calls write a record of themselves first. -/
def Interpreter.recording (I : Interpreter) (record : Bytes → List Value → List Word) :
    Interpreter where
  call name args store := Run.emitAll (record name args) >>= fun _ => I.call name args store
  fuel := I.fuel

end TreeWat.Source

namespace TreeWat.Wat

/-- A machine whose calls write a record of themselves first. -/
def Machine.recording (M : Machine) (record : Bytes → List Word → List Word) : Machine :=
  { M with callee := fun name => (M.callee name).map fun f =>
      ⟨f.params, fun args store => Run.emitAll (record name args) >>= fun _ => f.run args store⟩ }

end TreeWat.Wat

namespace TreeWat.Lower

open Source (Value Scene Interpreter)
open Wat (Code Op Arith Instr Machine Callable Flow execCode codeSets Ignores)
open Check (Context Inside FunctionScope checkExpression)

variable {tag : Bytes} {Γ : Names} {data : List Wat.Data} {I : Interpreter} {M : Machine}

/-! ## What the code of expressions is made of -/

/-- The plain instructions of expressions, those on the scratch local apart. -/
inductive ExprOp (tag : Bytes) (Γ : Names) : Op → Prop where
  | const (literal : Bytes) : ExprOp tag Γ (.const literal)
  | load (name : Bytes) : ExprOp tag Γ (loadOp tag Γ name)
  | store (name : Bytes) : ExprOp tag Γ (storeOp tag Γ name)
  | call (name : Bytes) : ExprOp tag Γ (.call name)
  | unreachable : ExprOp tag Γ .unreachable
  | arith (a : Arith) : ExprOp tag Γ (.arith a)
  | eqz : ExprOp tag Γ .eqz

/-- The pieces and the ways to compose them that all code of expressions is built with. -/
structure Composes (tag : Bytes) (Γ : Names) (P : Code → Prop) : Prop where
  nil : P []
  append : ∀ {code₁ code₂}, P code₁ → P code₂ → P (code₁ ++ code₂)
  op : ∀ {o}, ExprOp tag Γ o → P [.op o]
  comment : ∀ text, P [.comment text]
  and : ∀ {right}, P right → P [.cond (right ++ [.op (.localSet scratch)])
    [.op (.number 0), .op (.localSet scratch)], .op (.localGet scratch)]
  or : ∀ {right}, P right → P [.cond [.op (.number 1), .op (.localSet scratch)]
    (right ++ [.op (.localSet scratch)]), .op (.localGet scratch)]

theorem Composes.cons {P : Code → Prop} (h : Composes tag Γ P) {o : Op} {rest : Code}
    (first : ExprOp tag Γ o) (others : P rest) : P (.op o :: rest) := by
  have composed := h.append (h.op first) others
  exact composed

theorem Composes.callOps {P : Code → Prop} (h : Composes tag Γ P) (name : Bytes) :
    P (callOps Γ name) := by
  unfold Lower.callOps
  split
  · exact h.op (.call _)
  · split
    · exact h.cons (.call _) (h.op .unreachable)
    · exact h.op (.call _)

theorem Composes.commented {P : Code → Prop} (h : Composes tag Γ P) {code code' : Code}
    (hcomment : Commented code code') (hcode : P code) : P code' := by
  cases hcomment with
  | bare => exact hcode
  | comment text => exact h.append hcode (h.comment text)

mutual

theorem ExprCode.composed {P : Code → Prop} (hP : Composes tag Γ P) {n : Node} {ty : Ty}
    {s s' : State} {code : Code} (h : ExprCode tag Γ n ty s code s') : P code := by
  cases h with
  | name declared => exact hP.op (.load _)
  | number => exact hP.op (.const _)
  | trueLiteral => exact hP.op (.const _)
  | falseLiteral => exact hP.op (.const _)
  | string => exact hP.nil
  | assignment declared right =>
    exact hP.append (right.composed hP) (hP.cons (.store _) (hP.op (.load _)))
  | arithmetic isArith rule first second =>
    exact hP.append (hP.append (first.composed hP) (second.composed hP)) (hP.op (.arith _))
  | and first second => exact hP.append (first.composed hP) (hP.and (second.composed hP))
  | or first second => exact hP.append (first.composed hP) (hP.or (second.composed hP))
  | negation operand =>
    exact hP.append (hP.append (hP.op (.const _)) (operand.composed hP)) (hP.op (.arith _))
  | complement operand => exact hP.append (operand.composed hP) (hP.op .eqz)
  | call resolved valued arguments => exact hP.append (arguments.composed hP) (hP.callOps _)
  | print library =>
    exact hP.cons (.const _) (hP.cons (.const _) (hP.op (.call _)))

theorem ArgsCode.composed {P : Code → Prop} (hP : Composes tag Γ P) {args : List Node}
    {tys : List Ty} {s s' : State} {code : Code} (h : ArgsCode tag Γ args tys s code s') :
    P code := by
  cases h with
  | nil => exact hP.nil
  | cons first commented others =>
    exact hP.append (hP.commented commented (first.composed hP)) (others.composed hP)

end

/-! ## Locals that expressions set -/

/-- No variable in scope, nor the scratch local, is stored under the name. -/
def Elsewhere (tag : Bytes) (Γ : Names) (x : Bytes) : Prop :=
  x ≠ scratch ∧ ∀ y, (Γ.locals.lookup y).isSome → x ≠ localName tag y

theorem ExprOp.sets_eq_false {o : Op} (h : ExprOp tag Γ o) {x : Bytes}
    (elsewhere : Elsewhere tag Γ x) : o.sets x = false := by
  cases h with
  | load name =>
    unfold loadOp
    split <;> rfl
  | store name =>
    unfold storeOp
    split
    · rename_i declared
      exact beq_false_of_ne (elsewhere.2 name declared).symm
    · rfl
  | _ => rfl

/-- Expressions only set variables in scope and the scratch local. -/
theorem composes_sets {x : Bytes} (elsewhere : Elsewhere tag Γ x) :
    Composes tag Γ (codeSets x · = false) where
  nil := rfl
  append h₁ h₂ := by
    rw [Wat.codeSets_append, h₁, h₂]
    rfl
  op h := by simp [codeSets, Instr.sets, h.sets_eq_false elsewhere]
  comment _ := rfl
  and h := by
    have hscratch : (scratch == x) = false := beq_false_of_ne elsewhere.1.symm
    simp [codeSets, Instr.sets, Op.sets, Wat.codeSets_append, h, hscratch, Op.number]
  or h := by
    have hscratch : (scratch == x) = false := beq_false_of_ne elsewhere.1.symm
    simp [codeSets, Instr.sets, Op.sets, Wat.codeSets_append, h, hscratch, Op.number]

/-! ## The scratch local -/

theorem ExprOp.ignores {o : Op} (apart : ∀ x, localName tag x ≠ scratch) (h : ExprOp tag Γ o) :
    Ignores M scratch [.op o] := by
  cases h with
  | load name =>
    unfold loadOp
    split
    · refine .op ?_ rfl
      intro heq
      exact apart name (Op.localGet.inj heq)
    · exact .op (by simp) rfl
  | store name =>
    unfold storeOp
    split
    · exact .op (by simp) (beq_false_of_ne (apart name))
    · exact .op (by simp) rfl
  | _ => exact .op (by simp) rfl

/-- Expressions do not depend on what is in the scratch local. -/
theorem composes_ignores (apart : ∀ x, localName tag x ≠ scratch) :
    Composes tag Γ (Ignores M scratch) where
  nil := .nil
  append h₁ h₂ := h₁.append h₂
  op h := h.ignores apart
  comment text := .comment text
  -- whichever arm runs sets the scratch local, before it is read behind the conditional
  and h := by
    have hdecided : Ignores M scratch [.op (.number 0)] := .op (by simp [Op.number]) rfl
    exact .cond h.settles hdecided.settles
  or h := by
    have hdecided : Ignores M scratch [.op (.number 1)] := .op (by simp [Op.number]) rfl
    exact .cond hdecided.settles h.settles

/-! ## Records of calls -/

/-- The two records are the same for a call on both sides. -/
structure SameRecords (Γ : Names) (data : List Wat.Data)
    (record : Bytes → List Value → List Word) (record' : Bytes → List Word → List Word) :
    Prop where
  call : ∀ {name sig args ws}, Γ.func? name = some sig → sig.Valued →
    HoldAll sig.params args ws → record name args = record' (calleeName Γ.funcs name) ws
  prints : Γ.funcs.lookup (utf8 "prints") = none → ∀ {raw} {offset : Nat},
    ⟨offset, Wat.escapeLiteral raw⟩ ∈ data → record (utf8 "prints") [.text raw] =
      record' (libraryName (utf8 "prints"))
        [BitVec.ofInt 32 offset, BitVec.ofInt 32 (Wat.literalLength raw)]

theorem match_recording {α β : Type} {R : α → β → Prop} {ws ws' : List Word} (same : ws = ws')
    {r : Run α} {r' : Run β} (h : Run.Match R r r') :
    Run.Match R (Run.emitAll ws >>= fun _ => r) (Run.emitAll ws' >>= fun _ => r') := by
  subst same
  have hemit : Run.Match (fun _ _ => True) (Run.emitAll ws) (Run.emitAll ws) := .ok trivial
  exact hemit.bind fun _ _ _ => h

/-- Calls that do the same also do so when both sides record them. -/
theorem Linked.recording (linked : Linked Γ.globals Γ.funcs data I M)
    {record : Bytes → List Value → List Word} {record' : Bytes → List Word → List Word}
    (same : SameRecords Γ data record record') :
    Linked Γ.globals Γ.funcs data (I.recording record) (M.recording record') where
  fuel := linked.fuel
  call {name sig} resolved valued := by
    obtain ⟨f, hcallee, hparams, hcall⟩ := linked.call resolved valued
    refine ⟨_, Option.map_eq_some_iff.mpr ⟨f, hcallee, rfl⟩, hparams, ?_⟩
    intro args ws source store holds rel
    exact match_recording (same.call resolved valued holds) (hcall holds rel)
  halt library args source p h := by
    obtain ⟨-, -, hcall⟩ := Run.bind_res_eq_ok.mp h
    exact linked.halt library args source p hcall
  prints library := by
    obtain ⟨f, hcallee, hparams, hprints⟩ := linked.prints library
    refine ⟨_, Option.map_eq_some_iff.mpr ⟨f, hcallee, rfl⟩, hparams, ?_⟩
    intro raw offset source store hmem rel
    obtain ⟨hoffset, hlength, hrun⟩ := hprints hmem rel
    exact ⟨hoffset, hlength, match_recording (same.prints library hmem) hrun⟩

/-- The numbers of a text, one for each byte. -/
def codesOf (text : Bytes) : List Word :=
  text.map fun b => BitVec.ofNat 32 b.toNat

/-- The numbers that stand for a value. -/
def wordsOf : Value → List Word
  | .int w => [w]
  | .bool b => [Word.ofBool b]
  | .text _ => []
  | .unit => []

/-- The record of a call: which function it runs, and with which arguments. -/
def callRecord (Γ : Names) (name : Bytes) (args : List Value) : List Word :=
  codesOf (calleeName Γ.funcs name) ++ args.flatMap wordsOf

/-- The same on the numbers; those of `prints` are an address and a length. -/
def callRecord' (name : Bytes) (ws : List Word) : List Word :=
  codesOf name ++ if name = libraryName (utf8 "prints") then [] else ws

theorem HoldAll.words {tys : List Ty} {vs : List Value} {ws : List Word} (h : HoldAll tys vs ws) :
    vs.flatMap wordsOf = ws := by
  induction h with
  | nil => rfl
  | cons first _ ih =>
    rw [List.flatMap_cons, ih]
    cases first with
    | int w => rfl
    | boolean b => rfl

theorem libraryName_injective {x y : Bytes} (h : libraryName x = libraryName y) : x = y :=
  List.append_cancel_left h

/-- Functions that take values are not the library's `prints`. -/
theorem calleeName_ne_prints {name : Bytes} {sig : Signature}
    (resolved : Γ.func? name = some sig) (valued : sig.Valued) :
    calleeName Γ.funcs name ≠ libraryName (utf8 "prints") := by
  unfold calleeName
  cases huser : Γ.funcs.lookup name with
  | some sig' =>
    intro h
    exact libraryName_ne_globalName _ _ h.symm
  | none =>
    intro h
    obtain rfl : name = utf8 "prints" := libraryName_injective h
    rw [Names.func?, huser, Option.none_or] at resolved
    obtain rfl : (⟨[.string], .void⟩ : Signature) = sig := Option.some.inj resolved
    exact absurd (valued.params .string List.mem_cons_self) (by decide)

theorem sameRecords_callRecord (Γ : Names) (data : List Wat.Data) :
    SameRecords Γ data (callRecord Γ) callRecord' where
  call resolved valued holds := by
    rw [callRecord, callRecord', if_neg (calleeName_ne_prints resolved valued), holds.words]
  prints library raw offset hmem := by
    have hname : calleeName Γ.funcs (utf8 "prints") = libraryName (utf8 "prints") := by
      simp [calleeName, library]
    rw [callRecord, callRecord', if_pos rfl, hname]
    rfl

/-! ## Scenes read off states of the machine -/

/-- The value that a number stands for. -/
def valueOf : Ty → Word → Value
  | .boolean, w => .bool (w != 0)
  | _, w => .int w

/-- The number may stand for a value of the type: a truth value is zero or one. -/
def MayHold (ty : Ty) (w : Word) : Prop :=
  ty = .boolean → w = 0 ∨ w = 1

theorem holds_valueOf {ty : Ty} {w : Word} (hasValue : ty.hasValue = true) (h : MayHold ty w) :
    Holds ty (valueOf ty w) [w] := by
  cases ty with
  | int => exact .int w
  | boolean =>
    rcases h rfl with rfl | rfl
    · exact .boolean false
    · exact .boolean true
  | _ => cases hasValue

/-- A state in which the code of an expression may run: every variable in scope has a
number, and there is a scratch local. -/
structure Runnable (tag : Bytes) (Γ : Names) (locals : Bytes → Option Word)
    (store : Store Word) : Prop where
  declared : ∀ {x ty}, Γ.locals.lookup x = some ty →
    ∃ w, locals (localName tag x) = some w ∧ MayHold ty w
  global : ∀ {x ty}, Γ.globals.lookup x = some ty →
    ∃ w, store.globals (globalName x) = some w ∧ MayHold ty w
  spare : (locals scratch).isSome

/-- The scene that the state stands for. -/
def sceneOf (tag : Bytes) (Γ : Names) (locals : Bytes → Option Word) (store : Store Word) :
    Scene where
  locals x := (Γ.locals.lookup x).bind fun ty => (locals (localName tag x)).map (valueOf ty)
  store :=
    { globals := fun x =>
        (Γ.globals.lookup x).bind fun ty => (store.globals (globalName x)).map (valueOf ty)
      input := store.input }

variable {locals : Bytes → Option Word} {store : Store Word}

theorem Runnable.rel (h : Runnable tag Γ locals store) (valued : Γ.Valued)
    (apart : ∀ x, localName tag x ≠ scratch) :
    SceneRel tag Γ [] (sceneOf tag Γ locals store) locals store where
  apart := apart
  declared {x ty} hx := by
    obtain ⟨w, hw, hmay⟩ := h.declared hx
    have hasValue := valued.locals _ (mem_of_lookup hx)
    exact ⟨valueOf ty w, w, by simp [sceneOf, hx, hw], holds_valueOf hasValue hmay, hw⟩
  others {x} hx := by simp [sceneOf, hx]
  distinct := List.nodup_nil
  fresh hx := by cases hx
  spare := Option.isSome_iff_exists.mp h.spare
  global :=
    { globals := by
        intro x ty hx
        obtain ⟨w, hw, hmay⟩ := h.global hx
        have hasValue := valued.globals _ (mem_of_lookup hx)
        exact ⟨valueOf ty w, w, by simp [sceneOf, hx, hw], holds_valueOf hasValue hmay, hw⟩
      input := rfl }

/-! ## Expressions -/

/-- How the code of an expression ends: what the expression yields stands on top of the
stack, variables hold what they hold in the scene, and no other local was touched. -/
structure Evaluated (tag : Bytes) (Γ : Names) (ty : Ty) (stack : List Word)
    (locals : Bytes → Option Word) (p : Value × Scene) (q : Flow × Wat.Config) : Prop where
  flow : q.1 = .next
  value : ∃ ws, Holds ty p.1 ws ∧ q.2.stack = ws ++ stack
  scene : SceneRel tag Γ [] p.2 q.2.locals q.2.store
  others : ∀ x, Elsewhere tag Γ x → q.2.locals x = locals x

/-- The code of an expression does what the expression does, in every state. -/
theorem ExprCode.evaluates (linked : Linked Γ.globals Γ.funcs data I M) (valued : Γ.Valued)
    (apart : ∀ x, localName tag x ≠ scratch) {n : Node} {ty : Ty} {s s' : State} {code : Code}
    (h : ExprCode tag Γ n ty s code s') (hdata : s'.literals.data ⊆ data)
    (runnable : Runnable tag Γ locals store) (stack : List Word) :
    Run.Match (Evaluated tag Γ ty stack locals) (Source.eval I n (sceneOf tag Γ locals store))
      (execCode M code ⟨stack, locals, store⟩) := by
  have hmatch := h.simulates linked hdata (runnable.rel valued apart) stack
  have hkeeps : ∀ q, (execCode M code ⟨stack, locals, store⟩).res = .ok q →
      ∀ x, Elsewhere tag Γ x → q.2.locals x = locals x := by
    intro q hq x elsewhere
    exact (Wat.execCode_keeps (h.composed (composes_sets elsewhere)) hq :)
  refine (hmatch.and_right hkeeps).mono ?_
  rintro ⟨v, σ⟩ ⟨flow, c⟩ - ⟨hvalue, hothers⟩
  cases hvalue with
  | @intro _ _ ws _ _ holds rel => exact ⟨rfl, ⟨ws, holds, rfl⟩, rel, hothers⟩

/-- An expression that passed the checker inside a function, with its notes, and what
lowering reads of the scopes. -/
structure Analyzed (env : Env) (f : FunctionScope) (Γ : Names) (n n' : Node) (ty : Ty) : Prop where
  accepted : ∃ c inner inLoop, Inside f c inner inLoop Γ ∧ checkExpression c n = (.ok ty, n')
  valued : Γ.Valued
  agrees : Agrees env f Γ.funcs
  isTag : ∃ number, f.tag = utf8 "L" ++ Bytes.ofNat number

/-- Every analyzed expression has code, and from every state this code does what the
expression does on the scene of the state: it stops when the expression does, or pushes
its value, if it has one, and leaves the variables as the expression does.  The calls are
the same on both sides, in the same order and with the same arguments: this is so for all
records of calls.  What was in the scratch local makes no difference. -/
theorem expression_evaluates {env : Env} {f : FunctionScope} {n n' : Node} {ty : Ty}
    (analyzed : Analyzed env f Γ n n' ty) (s : State) :
    ∃ code s', expression env n' s = .ok (code, s') ∧
      ∀ {data : List Wat.Data} {I : Interpreter} {M : Machine},
        s'.literals.data ⊆ data → Linked Γ.globals Γ.funcs data I M →
        ∀ (stack : List Word) {locals : Bytes → Option Word} {store : Store Word},
          Runnable f.tag Γ locals store →
          Run.Match (Evaluated f.tag Γ ty stack locals)
            (Source.eval I n (sceneOf f.tag Γ locals store))
            (execCode M code ⟨stack, locals, store⟩) ∧
          (∀ {record record'}, SameRecords Γ data record record' →
            Run.Match (Evaluated f.tag Γ ty stack locals)
              (Source.eval (I.recording record) n (sceneOf f.tag Γ locals store))
              (execCode (M.recording record') code ⟨stack, locals, store⟩)) ∧
          ∀ w, Run.Alike (Wat.AgreeEnd scratch) (execCode M code ⟨stack, locals, store⟩)
            (execCode M code ⟨stack, assign locals scratch w, store⟩) := by
  obtain ⟨c, inner, inLoop, inside, accepted⟩ := analyzed.accepted
  obtain ⟨code, s', hcode, hexpr⟩ :=
    exprCode_of_checkExpression inside analyzed.valued analyzed.agrees accepted s
  have apart : ∀ x, localName f.tag x ≠ scratch := by
    obtain ⟨number, hnumber⟩ := analyzed.isTag
    intro x
    rw [hnumber]
    exact localName_ne_scratch number x
  refine ⟨code, s', hcode, ?_⟩
  intro data I M hdata linked stack locals store runnable
  refine ⟨?_, ?_, ?_⟩
  · exact hexpr.evaluates linked analyzed.valued apart hdata runnable stack
  · intro record record' same
    exact hexpr.evaluates (linked.recording same) analyzed.valued apart hdata runnable stack
  · intro w
    have hagree : Wat.Agree scratch ⟨stack, locals, store⟩
        ⟨stack, assign locals scratch w, store⟩ :=
      ⟨rfl, rfl, fun y hy => (assign_of_ne hy).symm, runnable.spare, by simp⟩
    exact hexpr.composed (composes_ignores apart) _ _ hagree

/-! ### A nested expression

`(a || f(n + 1)) && (a && f(n))`, where `f` says whether a number is zero. -/

/-- The names in scope. -/
def nestedNames : Names :=
  ⟨[(utf8 "a", .boolean), (utf8 "n", .int)], [], [(utf8 "f", ⟨[.int], .boolean⟩)]⟩

def nestedExpression : Node :=
  let id (name : String) : Node := .leaf .id (utf8 name) .nowhere
  let node (kind : Kind) (children : List Node) : Node := .branch kind .nowhere children
  let binary (op : BinaryOp) (l r : Node) : Node := node (.binary op) [l, r]
  let call (arg : Node) : Node := node .functionInvocation [id "f", node .argumentList [arg]]
  binary .and
    (binary .or (id "a") (call (binary .add (id "n") (.leaf .num (utf8 "1") .nowhere))))
    (binary .and (id "a") (call (id "n")))

def nestedScope : FunctionScope := ⟨0, utf8 "L1", .nowhere, .void⟩

def nestedContext : Context where
  scopes :=
    { builtins := .builtins
      globals := { Scope.globals with funcs := nestedNames.funcs }
      opened := [nestedScope.scope nestedNames.locals] }
  stack := [.opened 0, .globals, .builtins]
  tags := 1

def nestedInterpreter : Interpreter where
  call name args store :=
    if name = utf8 "f" then
      match args with
      | [.int w] => pure (.bool (w == 0), store)
      | _ => .stop .wrong
    else .stop .halted
  fuel := 0

def nestedMachine : Machine where
  memory _ := none
  callee name :=
    if name = globalName (utf8 "f") then
      some ⟨1, fun ws store => pure (some (Word.ofBool (ws.headD 0 == 0)), store)⟩
    else
      (Scope.builtinFunctions.find? fun v => libraryName v.1 = name).map fun v =>
        ⟨if v.1 = utf8 "prints" then 2 else v.2.params.length, fun _ _ => .stop .halted⟩
  fuel := 0

theorem nested_analyzed :
    Analyzed ⟨nestedContext.scopes, false⟩ nestedScope nestedNames nestedExpression
      (checkExpression nestedContext nestedExpression).2 .boolean where
  accepted := by
    refine ⟨nestedContext, [], false, ⟨rfl, rfl, rfl, rfl, rfl, rfl, by simp, by simp⟩, ?_⟩
    have haccepted : (checkExpression nestedContext nestedExpression).1 = .ok .boolean := by
      decide +kernel
    exact Prod.ext haccepted rfl
  valued := by
    refine ⟨by decide, by decide, ?_⟩
    intro v hv
    rw [List.mem_singleton.mp hv]
    exact ⟨by decide, .inl rfl⟩
  agrees := ⟨rfl, rfl, rfl, rfl, rfl, rfl⟩
  isTag := ⟨1, rfl⟩

theorem nested_linked :
    Linked nestedNames.globals nestedNames.funcs [] nestedInterpreter nestedMachine where
  fuel := rfl
  call {name sig} resolved valued := by
    by_cases hf : name = utf8 "f"
    · subst hf
      obtain rfl : (⟨[.int], .boolean⟩ : Signature) = sig := Option.some.inj resolved
      refine ⟨_, rfl, rfl, ?_⟩
      intro args ws source store holds rel
      obtain ⟨v, w, rfl, rfl, hholds⟩ : ∃ v w, args = [v] ∧ ws = [w] ∧ Holds .int v [w] := by
        cases holds with
        | @cons _ _ v _ w _ first others =>
          cases others
          exact ⟨v, w, rfl, rfl, first⟩
      cases hholds with
      | int w => exact .pure ⟨.boolean (w == 0), rel⟩
    · have hlibrary : Scope.builtinFunctions.lookup name = some sig := by
        have hother : nestedNames.funcs.lookup name = none := by
          rw [lookup_eq_none_iff_not_mem]
          simpa [nestedNames] using hf
        rw [Names.func?, hother, Option.none_or] at resolved
        exact resolved
      have hmem := mem_of_lookup hlibrary
      have hstop : ∀ args source, nestedInterpreter.call name args source = .stop .halted :=
        fun args source => if_neg hf
      simp only [Scope.builtinFunctions, List.mem_cons, Prod.mk.injEq, List.not_mem_nil,
        or_false] at hmem
      rcases hmem with ⟨rfl, rfl⟩ | ⟨rfl, rfl⟩ | ⟨rfl, rfl⟩ | ⟨rfl, rfl⟩ | ⟨rfl, rfl⟩ | ⟨rfl, rfl⟩
      · exact ⟨_, rfl, rfl, fun _ _ => .stopped rfl⟩
      · exact ⟨_, rfl, rfl, fun _ _ => .stopped rfl⟩
      · exact ⟨_, rfl, rfl, fun _ _ => .stopped rfl⟩
      · exact ⟨_, rfl, rfl, fun _ _ => .stopped rfl⟩
      · exact ⟨_, rfl, rfl, fun _ _ => .stopped rfl⟩
      · exact absurd (valued.params .string List.mem_cons_self) (by decide)
  halt _ _ _ _ h := by cases h
  prints _ := ⟨_, rfl, rfl, fun hmem => by cases hmem⟩

/-- A state in which `a` is false and `n` is minus one. -/
def nestedLocals : Bytes → Option Word := fun name =>
  List.lookup name [(utf8 "$L1a", 0), (utf8 "$L1n", -1), (scratch, 5)]

def nestedStore : Store Word := ⟨fun _ => none, fun _ => 0⟩

theorem nested_runnable :
    Runnable nestedScope.tag nestedNames nestedLocals nestedStore where
  declared {x ty} hx := by
    have hmem := mem_of_lookup hx
    simp only [nestedNames, List.mem_cons, Prod.mk.injEq, List.not_mem_nil, or_false] at hmem
    rcases hmem with ⟨rfl, rfl⟩ | ⟨rfl, rfl⟩
    · exact ⟨0, rfl, fun _ => .inl rfl⟩
    · exact ⟨-1, rfl, fun h => by cases h⟩
  global hx := by cases hx
  spare := rfl

/-- In this state `f` is called once, with zero, and the nested expression is false, also
if the scratch local holds something and there is a number below. -/
theorem expression_evaluates_nested :
    ∃ code s' locals' store',
      expression ⟨nestedContext.scopes, false⟩
        (checkExpression nestedContext nestedExpression).2 .initial = .ok (code, s') ∧
      execCode (nestedMachine.recording callRecord') code ⟨[7], nestedLocals, nestedStore⟩ =
        ⟨codesOf (utf8 "$Gf") ++ [0], .ok (.next, ⟨[0, 7], locals', store'⟩)⟩ := by
  obtain ⟨code, s', hcode, hruns⟩ := expression_evaluates nested_analyzed .initial
  have hempty : s'.literals.data ⊆ [] := by
    have hdata : (match expression ⟨nestedContext.scopes, false⟩
        (checkExpression nestedContext nestedExpression).2 .initial with
        | .ok p => decide (p.2.literals.data = [])
        | .error _ => false) = true := by decide +kernel
    rw [hcode] at hdata
    rw [of_decide_eq_true hdata]
    exact List.Subset.refl _
  obtain ⟨-, hrecorded, -⟩ := hruns hempty nested_linked [7] nested_runnable
  have hmatch := hrecorded (sameRecords_callRecord nestedNames [])
  obtain ⟨σ, hsource⟩ : ∃ σ, Source.eval (nestedInterpreter.recording (callRecord nestedNames))
      nestedExpression (sceneOf nestedScope.tag nestedNames nestedLocals nestedStore) =
        ⟨codesOf (utf8 "$Gf") ++ [0], .ok (.bool false, σ)⟩ := ⟨_, rfl⟩
  rw [hsource] at hmatch
  generalize hr : execCode (nestedMachine.recording callRecord') code _ = r at hmatch
  cases hmatch with
  | @ok out _ q hend =>
    obtain ⟨flow, c⟩ := q
    obtain ⟨hflow, ⟨ws, hvalue, hstack⟩, -, -⟩ := hend
    cases hvalue
    rcases c with ⟨stack, locals', store'⟩
    cases hflow
    cases hstack
    exact ⟨code, s', locals', store', hcode, hr⟩

end TreeWat.Lower
