import TreeWat.Proofs.Lower.Literals
import TreeWat.Proofs.Lower.Valid
set_option autoImplicit false

/-!
# Lower: generated code does what the tree says

Both sides are run with the same fuel.  Related states hold the same values in their
variables, and code that belongs to a tree takes related states to related states,
writing the same and stopping for the same reasons.  What is known about calls is
collected in `Linked`, so that expressions, statements and bodies are proved first, by
recursion on the relations of `Code`, and calls afterwards, by induction on the fuel.
-/

namespace TreeWat.Lower

open Source (Value Scene Interpreter)
open Wat (Code Op Arith Instr Machine Callable Flow execCode)

/-! ## Related states -/

/-- The numbers that stand for a value of the type on the operand stack. -/
inductive Holds : Ty → Value → List Word → Prop where
  | int (w : Word) : Holds .int (.int w) [w]
  | boolean (b : Bool) : Holds .boolean (.bool b) [Word.ofBool b]
  | string (raw : Bytes) : Holds .string (.text raw) []
  | void : Holds .void .unit []

/-- The numbers that stand for arguments. -/
inductive HoldAll : List Ty → List Value → List Word → Prop where
  | nil : HoldAll [] [] []
  | cons {ty tys v vs w ws} (first : Holds ty v [w]) (others : HoldAll tys vs ws) :
      HoldAll (ty :: tys) (v :: vs) (w :: ws)

/-- The global variables hold the same values, and the host hands in the same. -/
structure StoreRel (globals : List (Bytes × Ty)) (source : Store Value) (store : Store Word) :
    Prop where
  globals : ∀ {x ty}, globals.lookup x = some ty → ∃ v w, source.globals x = some v ∧
    Holds ty v [w] ∧ store.globals (globalName x) = some w
  input : store.input = source.input

/-- The variables of a function hold the same values.  Locals for `pending`, the
variables that are declared further down, are still at zero. -/
structure SceneRel (tag : Bytes) (Γ : Names) (pending : List Bytes) (σ : Scene)
    (locals : Bytes → Option Word) (store : Store Word) : Prop where
  apart : ∀ x, localName tag x ≠ scratch
  declared : ∀ {x ty}, Γ.locals.lookup x = some ty → ∃ v w, σ.locals x = some v ∧
    Holds ty v [w] ∧ locals (localName tag x) = some w
  others : ∀ {x}, Γ.locals.lookup x = none → σ.locals x = none
  distinct : pending.Nodup
  fresh : ∀ {x}, x ∈ pending → Γ.locals.lookup x = none ∧ locals (localName tag x) = some 0
  spare : ∃ w, locals scratch = some w
  global : StoreRel Γ.globals σ.store store

/-- Related ends of a call. -/
def Returned (globals : List (Bytes × Ty)) (result : Ty) (p : Value × Store Value)
    (q : Option Word × Store Word) : Prop :=
  Holds result p.1 q.1.toList ∧ StoreRel globals p.2 q.2

/-- The generated name of a function of the user or else of the library. -/
def calleeName (funcs : List (Bytes × Signature)) (name : Bytes) : Bytes :=
  if (funcs.lookup name).isSome then globalName name else libraryName name

/-- Calls do the same on both sides, among the given global variables and functions,
with the given data in memory. -/
structure Linked (globals : List (Bytes × Ty)) (funcs : List (Bytes × Signature))
    (data : List Wat.Data) (I : Interpreter) (M : Machine) : Prop where
  fuel : M.fuel = I.fuel
  call : ∀ {name sig}, Names.func? ⟨[], globals, funcs⟩ name = some sig → sig.Valued →
    ∃ f, M.callee (calleeName funcs name) = some f ∧ f.params = sig.params.length ∧
      ∀ {args ws source store}, HoldAll sig.params args ws → StoreRel globals source store →
        Run.Match (Returned globals sig.result) (I.call name args source) (f.run ws store)
  halt : funcs.lookup (utf8 "halt") = none → ∀ args source p,
    (I.call (utf8 "halt") args source).res ≠ .ok p
  prints : funcs.lookup (utf8 "prints") = none →
    ∃ f, M.callee (libraryName (utf8 "prints")) = some f ∧ f.params = 2 ∧
      ∀ {raw} {offset : Nat} {source store}, ⟨offset, Wat.escapeLiteral raw⟩ ∈ data →
        StoreRel globals source store →
        offset < 2 ^ 31 ∧ Wat.literalLength raw < 2 ^ 31 ∧
        Run.Match (Returned globals .void) (I.call (utf8 "prints") [.text raw] source)
          (f.run [BitVec.ofInt 32 offset, BitVec.ofInt 32 (Wat.literalLength raw)] store)

variable {globals : List (Bytes × Ty)} {funcs : List (Bytes × Signature)} {tag : Bytes}
  {Γ : Names} {pending : List Bytes} {σ : Scene} {locals : Bytes → Option Word}
  {store : Store Word} {I : Interpreter} {M : Machine}

/-! ## Values -/

theorem Holds.single {ty : Ty} {v : Value} {ws : List Word} (h : Holds ty v ws)
    (hasValue : ty.hasValue = true) : ∃ w, ws = [w] := by
  cases h with
  | int w => exact ⟨w, rfl⟩
  | boolean b => exact ⟨_, rfl⟩
  | string raw => cases hasValue
  | void => cases hasValue

theorem Holds.hasValue {ty : Ty} {v : Value} {w : Word} (h : Holds ty v [w]) :
    ty.hasValue = true := by
  cases h with
  | int => rfl
  | boolean => rfl

theorem Holds.initial {ty : Ty} (hasValue : ty.hasValue = true) : Holds ty (.initial ty) [0] := by
  cases ty with
  | int => exact .int 0
  | boolean => exact .boolean false
  | _ => cases hasValue

theorem HoldAll.length {tys : List Ty} {vs : List Value} {ws : List Word}
    (h : HoldAll tys vs ws) : ws.length = tys.length ∧ vs.length = tys.length := by
  induction h with
  | nil => exact ⟨rfl, rfl⟩
  | cons _ _ ih => exact ⟨congrArg (· + 1) ih.1, congrArg (· + 1) ih.2⟩

/-- An operator does on values what its instruction does on numbers. -/
theorem combine_arith {op : BinaryOp} {a : Arith} {operand ty : Ty}
    (isArith : arith? op = some a) (rule : op.typing operand operand = .ok ty)
    {v₁ v₂ : Value} {w₁ w₂ : Word} (first : Holds operand v₁ [w₁])
    (second : Holds operand v₂ [w₂]) :
    (∃ v w, Source.combine op v₁ v₂ = pure v ∧ a.apply w₁ w₂ = some w ∧ Holds ty v [w]) ∨
      Source.combine op v₁ v₂ = .stop .division ∧ a.apply w₁ w₂ = none := by
  cases first with
  | int w₁ =>
    cases second with
    | int w₂ =>
      cases op with
      | div =>
        cases isArith
        cases rule
        cases hq : Word.divide? w₁ w₂ with
        | none => exact .inr ⟨by simp [Source.combine, hq, Source.yieldOr], hq⟩
        | some q => exact .inl ⟨.int q, q, by simp [Source.combine, hq, Source.yieldOr], hq, .int q⟩
      | mod =>
        cases isArith
        cases rule
        cases hq : Word.remainder? w₁ w₂ with
        | none => exact .inr ⟨by simp [Source.combine, hq, Source.yieldOr], hq⟩
        | some q => exact .inl ⟨.int q, q, by simp [Source.combine, hq, Source.yieldOr], hq, .int q⟩
      | assign => cases isArith
      | and => cases isArith
      | or => cases isArith
      | add | sub | mul =>
        cases isArith
        cases rule
        exact .inl ⟨_, _, rfl, rfl, .int _⟩
      | _ =>
        cases isArith
        cases rule
        exact .inl ⟨_, _, rfl, rfl, .boolean _⟩
  | boolean b₁ =>
    cases second with
    | boolean b₂ =>
      cases op with
      | eq =>
        cases isArith
        cases rule
        exact .inl ⟨_, _, rfl, by cases b₁ <;> cases b₂ <;> rfl, .boolean (b₁ == b₂)⟩
      | ne =>
        cases isArith
        cases rule
        exact .inl ⟨_, _, rfl, by cases b₁ <;> cases b₂ <;> rfl, .boolean (b₁ != b₂)⟩
      | assign => cases isArith
      | and => cases isArith
      | or => cases isArith
      | _ => cases rule

/-! ## Variables -/

theorem StoreRel.assign {source : Store Value} (h : StoreRel globals source store) {x : Bytes}
    {ty : Ty} (declared : globals.lookup x = some ty) {v : Value} {w : Word}
    (holds : Holds ty v [w]) :
    StoreRel globals { source with globals := assign source.globals x v }
      { store with globals := assign store.globals (globalName x) w } where
  globals {y ty'} hy := by
    by_cases hxy : y = x
    · subst hxy
      cases declared.symm.trans hy
      exact ⟨v, w, assign_self _ _ _, holds, assign_self _ _ _⟩
    · obtain ⟨v', w', hv, hholds, hw⟩ := h.globals hy
      refine ⟨v', w', ?_, hholds, ?_⟩
      · exact (assign_of_ne hxy).trans hv
      · exact (assign_of_ne fun heq => hxy (globalName_injective heq)).trans hw
  input := h.input

theorem SceneRel.assign (h : SceneRel tag Γ pending σ locals store) {x : Bytes} {ty : Ty}
    (declared : Γ.locals.lookup x = some ty) {v : Value} {w : Word} (holds : Holds ty v [w]) :
    SceneRel tag Γ pending { σ with locals := assign σ.locals x v }
      (assign locals (localName tag x) w) store where
  apart := h.apart
  declared {y ty'} hy := by
    by_cases hxy : y = x
    · subst hxy
      cases declared.symm.trans hy
      exact ⟨v, w, assign_self _ _ _, holds, assign_self _ _ _⟩
    · obtain ⟨v', w', hv, hholds, hw⟩ := h.declared hy
      refine ⟨v', w', ?_, hholds, ?_⟩
      · exact (assign_of_ne hxy).trans hv
      · exact (assign_of_ne fun heq => hxy (localName_injective heq)).trans hw
  others {y} hy := by
    have hxy : y ≠ x := by
      rintro rfl
      rw [declared] at hy
      cases hy
    exact (assign_of_ne hxy).trans (h.others hy)
  distinct := h.distinct
  fresh {y} hy := by
    obtain ⟨hnone, hzero⟩ := h.fresh hy
    refine ⟨hnone, (assign_of_ne ?_).trans hzero⟩
    intro heq
    rw [localName_injective heq, declared] at hnone
    cases hnone
  spare := by
    obtain ⟨w', hw'⟩ := h.spare
    exact ⟨w', (assign_of_ne (h.apart x).symm).trans hw'⟩
  global := h.global

/-- The scratch local stands for no variable. -/
theorem SceneRel.assign_scratch (h : SceneRel tag Γ pending σ locals store) (w : Word) :
    SceneRel tag Γ pending σ (TreeWat.assign locals Lower.scratch w) store where
  apart := h.apart
  declared {y ty} hy := by
    obtain ⟨v', w', hv, hholds, hw⟩ := h.declared hy
    exact ⟨v', w', hv, hholds, (assign_of_ne (h.apart y)).trans hw⟩
  others := h.others
  distinct := h.distinct
  fresh {y} hy := by
    obtain ⟨hnone, hzero⟩ := h.fresh hy
    exact ⟨hnone, (assign_of_ne (h.apart y)).trans hzero⟩
  spare := ⟨w, assign_self _ _ _⟩
  global := h.global

/-- Where a variable is declared, its local is at zero. -/
theorem SceneRel.declare {x : Bytes} {ty : Ty}
    (h : SceneRel tag Γ (x :: pending) σ locals store) (hasValue : ty.hasValue = true) :
    SceneRel tag (Γ.declare x ty) pending
      { σ with locals := TreeWat.assign σ.locals x (.initial ty) } locals store where
  apart := h.apart
  declared {y ty'} hy := by
    obtain ⟨hnone, hzero⟩ := h.fresh List.mem_cons_self
    by_cases hxy : y = x
    · subst hxy
      simp [Names.declare, List.lookup_append, hnone] at hy
      subst hy
      exact ⟨_, 0, assign_self _ _ _, .initial hasValue, hzero⟩
    · have hxy' : (y == x) = false := beq_false_of_ne hxy
      simp [Names.declare, List.lookup_append, List.lookup_cons, hxy'] at hy
      obtain ⟨v', w', hv, hholds, hw⟩ := h.declared hy
      exact ⟨v', w', (assign_of_ne hxy).trans hv, hholds, hw⟩
  others {y} hy := by
    simp only [Names.declare, List.lookup_append, Option.or_eq_none_iff] at hy
    have hxy : y ≠ x := by
      rintro rfl
      simp at hy
    exact (assign_of_ne hxy).trans (h.others hy.1)
  distinct := (List.nodup_cons.mp h.distinct).2
  fresh {y} hy := by
    obtain ⟨hnone, hzero⟩ := h.fresh (List.mem_cons_of_mem _ hy)
    have hxy : (y == x) = false := by
      apply beq_false_of_ne
      rintro rfl
      exact (List.nodup_cons.mp h.distinct).1 hy
    exact ⟨by simp [Names.declare, List.lookup_append, List.lookup_cons, hnone, hxy], hzero⟩
  spare := h.spare
  global := h.global

/-- Pushing a variable pushes its value. -/
theorem SceneRel.load (h : SceneRel tag Γ pending σ locals store) {x : Bytes} {ty : Ty}
    (declared : Γ.var? x = some ty) :
    ∃ v w, σ.read x = some v ∧ Holds ty v [w] ∧ ∀ stack rest,
      execCode M (.op (loadOp tag Γ x) :: rest) ⟨stack, locals, store⟩ =
        execCode M rest ⟨w :: stack, locals, store⟩ := by
  unfold Names.var? at declared
  cases hl : Γ.locals.lookup x with
  | some ty' =>
    rw [hl, Option.some_or] at declared
    cases declared
    obtain ⟨v, w, hv, holds, hw⟩ := h.declared hl
    refine ⟨v, w, by simp [Scene.read, hv], holds, ?_⟩
    intro stack rest
    simp only [loadOp, hl, Option.isSome_some, if_true]
    exact Wat.exec_localGet hw
  | none =>
    rw [hl, Option.none_or] at declared
    obtain ⟨v, w, hv, holds, hw⟩ := h.global.globals declared
    refine ⟨v, w, by simp [Scene.read, h.others hl, hv], holds, ?_⟩
    intro stack rest
    simp only [loadOp, hl, Option.isSome_none, Bool.false_eq_true, if_false]
    exact Wat.exec_globalGet hw

theorem SceneRel.hasValue (h : SceneRel tag Γ pending σ locals store) {x : Bytes} {ty : Ty}
    (declared : Γ.var? x = some ty) : ty.hasValue = true := by
  unfold Names.var? at declared
  cases hl : Γ.locals.lookup x with
  | some ty' =>
    rw [hl, Option.some_or] at declared
    cases declared
    obtain ⟨v, w, -, holds, -⟩ := h.declared hl
    exact holds.hasValue
  | none =>
    rw [hl, Option.none_or] at declared
    obtain ⟨v, w, -, holds, -⟩ := h.global.globals declared
    exact holds.hasValue

/-- Popping into a variable and pushing it again stores the value and keeps it. -/
theorem SceneRel.store_load (h : SceneRel tag Γ pending σ locals store) {x : Bytes} {ty : Ty}
    (declared : Γ.var? x = some ty) {v : Value} {w : Word} (holds : Holds ty v [w]) :
    ∃ σ' locals' store', σ.write x v = some σ' ∧ SceneRel tag Γ pending σ' locals' store' ∧
      ∀ stack rest,
        execCode M (.op (storeOp tag Γ x) :: .op (loadOp tag Γ x) :: rest)
          ⟨w :: stack, locals, store⟩ = execCode M rest ⟨w :: stack, locals', store'⟩ := by
  unfold Names.var? at declared
  cases hl : Γ.locals.lookup x with
  | some ty' =>
    rw [hl, Option.some_or] at declared
    cases declared
    obtain ⟨v', w', hv, -, hw⟩ := h.declared hl
    refine ⟨_, _, _, by simp only [Scene.write, hv, Option.isSome_some, if_true],
      h.assign hl holds, ?_⟩
    intro stack rest
    simp only [storeOp, loadOp, hl, Option.isSome_some, if_true]
    rw [Wat.exec_localSet hw, Wat.exec_localGet (assign_self _ _ _)]
  | none =>
    rw [hl, Option.none_or] at declared
    obtain ⟨v', w', hv, -, hw⟩ := h.global.globals declared
    refine ⟨{ σ with store := { σ.store with globals := TreeWat.assign σ.store.globals x v } },
      locals, { store with globals := TreeWat.assign store.globals (globalName x) w },
      by simp [Scene.write, h.others hl, hv],
      { h with global := h.global.assign declared holds }, ?_⟩
    intro stack rest
    simp only [storeOp, loadOp, hl, Option.isSome_none, Bool.false_eq_true, if_false]
    rw [Wat.exec_globalSet hw, Wat.exec_globalGet (assign_self _ _ _)]

/-! ## Expressions -/

/-- The code pushed what the expression yields. -/
inductive ValueRel (tag : Bytes) (Γ : Names) (pending : List Bytes) (ty : Ty)
    (stack : List Word) : Value × Scene → Flow × Wat.Config → Prop where
  | intro {v σ ws locals store} (holds : Holds ty v ws)
      (rel : SceneRel tag Γ pending σ locals store) :
      ValueRel tag Γ pending ty stack (v, σ) (.next, ⟨ws ++ stack, locals, store⟩)

/-- The code pushed what the arguments yield, the last one on top. -/
inductive ValuesRel (tag : Bytes) (Γ : Names) (pending : List Bytes) (tys : List Ty)
    (stack : List Word) : List Value × Scene → Flow × Wat.Config → Prop where
  | intro {vs σ ws locals store} (holds : HoldAll tys vs ws)
      (rel : SceneRel tag Γ pending σ locals store) :
      ValuesRel tag Γ pending tys stack (vs, σ) (.next, ⟨ws.reverse ++ stack, locals, store⟩)

/-- Goes on behind the code of an expression. -/
theorem match_value {β : Type} {S : β → Flow × Wat.Config → Prop} {ty : Ty} {stack : List Word}
    {r : Run (Value × Scene)} {k : Value × Scene → Run β} {code rest : Code} {c : Wat.Config}
    (h : Run.Match (ValueRel tag Γ pending ty stack) r (execCode M code c))
    (next : ∀ {v σ ws locals store}, Holds ty v ws → SceneRel tag Γ pending σ locals store →
      Run.Match S (k (v, σ)) (execCode M rest ⟨ws ++ stack, locals, store⟩)) :
    Run.Match S (r >>= k) (execCode M (code ++ rest) c) := by
  rw [Wat.execCode_append]
  refine h.bind ?_
  rintro _ _ ⟨holds, rel⟩
  exact next holds rel

theorem match_next {α : Type} {R : α → Flow × Wat.Config → Prop} {a : α} {c : Wat.Config}
    (related : R a (.next, c)) : Run.Match R (pure a) (execCode M [] c) := by
  rw [Wat.execCode_nil]
  exact .pure related

/-- A comment does nothing. -/
theorem Commented.exec {code code' : Code} (h : Commented code code') (c : Wat.Config) :
    execCode M code' c = execCode M code c := by
  cases h with
  | bare => rfl
  | comment text =>
    have hcomment : execCode M [.comment text] = fun c => pure (.next, c) := by
      funext c
      rw [Wat.exec_comment, Wat.execCode_nil]
    rw [Wat.execCode_append, hcomment, Wat.afterNext_pure]
    exact Run.bind_done _

theorem eval_arith {op : BinaryOp} {a : Arith} (isArith : arith? op = some a) {attr : Bytes}
    {loc : Location} {note : Option Annotation} {l r : Node} :
    Source.eval I ⟨.binary op, attr, loc, note, [l, r]⟩ σ =
      Source.eval I l σ >>= fun p => Source.eval I r p.2 >>= fun q =>
        Source.combine op p.1 q.1 >>= fun v => pure (v, q.2) := by
  rw [Source.eval]
  · rintro rfl
    cases isArith
  · rintro rfl
    cases isArith
  · rintro rfl
    cases isArith

/-- An arm of a short-circuit operator that evaluates the right operand. -/
theorem match_arm {stack : List Word} {r : Run (Value × Scene)} {right : Code}
    (h : Run.Match (ValueRel tag Γ pending .boolean []) r
      (execCode M right ⟨[], locals, store⟩)) :
    Run.Match (ValueRel tag Γ pending .boolean stack) r
      (execCode M (right ++ [.op (.localSet scratch)]) ⟨[], locals, store⟩ >>=
        Wat.leave none stack >>= Wat.afterNext (execCode M [.op (.localGet scratch)])) := by
  rw [Wat.execCode_append, Run.bind_bind, Run.bind_bind]
  refine h.bind_right ?_
  rintro _ _ ⟨holds, rel⟩
  cases holds with
  | boolean b =>
    obtain ⟨w, hw⟩ := rel.spare
    refine ⟨_, ?_, .intro (.boolean b) (rel.assign_scratch (Word.ofBool b))⟩
    show execCode M [.op (.localSet scratch)] _ >>= _ = _
    rw [List.append_nil, Wat.exec_localSet hw, Wat.execCode_nil, Run.done_bind, Wat.leave_next,
      Run.done_bind, Wat.afterNext_next, Wat.exec_localGet (assign_self _ _ _), Wat.execCode_nil]
    rfl

/-- An arm of a short-circuit operator that is decided by the left operand. -/
theorem match_decided {stack : List Word} (b : Bool) {i : Int}
    (isNumber : Word.ofNumeral? (Bytes.ofInt i) = some (Word.ofBool b))
    (rel : SceneRel tag Γ pending σ locals store) :
    Run.Match (ValueRel tag Γ pending .boolean stack) (pure (.bool b, σ))
      (execCode M [.op (.number i), .op (.localSet scratch)] ⟨[], locals, store⟩ >>=
        Wat.leave none stack >>= Wat.afterNext (execCode M [.op (.localGet scratch)])) := by
  obtain ⟨w, hw⟩ := rel.spare
  rw [Op.number, Wat.exec_const isNumber, Wat.exec_localSet hw, Wat.execCode_nil, Run.done_bind,
    Wat.leave_next, Run.done_bind, Wat.afterNext_next, Wat.exec_localGet (assign_self _ _ _),
    Wat.execCode_nil]
  exact .pure (.intro (.boolean b) (rel.assign_scratch (Word.ofBool b)))

variable {data : List Wat.Data}

/-- A call and its code do the same.  Control does not come back from the library's
`halt`, so that nothing behind it is reached. -/
theorem match_call (linked : Linked Γ.globals Γ.funcs data I M) {name : Bytes} {sig : Signature}
    (resolved : Γ.func? name = some sig) (valued : sig.Valued) {vs : List Value} {ws : List Word}
    (holds : HoldAll sig.params vs ws) (rel : SceneRel tag Γ pending σ locals store)
    (stack : List Word) :
    Run.Match (ValueRel tag Γ pending sig.result stack)
      (I.call name vs σ.store >>= fun p => pure (p.1, { σ with store := p.2 }))
      (execCode M (callOps Γ name) ⟨ws.reverse ++ stack, locals, store⟩) := by
  obtain ⟨f, hcallee, hparams, hcall⟩ := linked.call resolved valued
  have hcount : f.params = ws.length := hparams.trans holds.length.1.symm
  have hrun := hcall holds rel.global
  have hend : Run.Match (ValueRel tag Γ pending sig.result stack)
      (I.call name vs σ.store >>= fun p => pure (p.1, { σ with store := p.2 }))
      (execCode M [.op (.call (calleeName Γ.funcs name))]
        ⟨ws.reverse ++ stack, locals, store⟩) := by
    rw [Wat.exec_call hcallee hcount]
    refine hrun.bind ?_
    rintro p q ⟨hvalue, hstore⟩
    exact match_next (.intro hvalue { rel with global := hstore })
  unfold callOps
  unfold calleeName at hend hcallee
  cases huser : Γ.funcs.lookup name with
  | some sig' =>
    rw [huser] at hend
    exact hend
  | none =>
    simp only [huser, Option.isSome_none, Bool.false_eq_true, if_false] at hend hcallee ⊢
    by_cases isHalt : name = utf8 "halt"
    · subst isHalt
      rw [if_pos rfl, Wat.exec_call hcallee hcount]
      have hnever : Run.Match (fun _ _ => False) (I.call (utf8 "halt") vs σ.store)
          (f.run ws store) := hrun.mono fun p q hp _ => linked.halt huser vs σ.store p hp
      exact hnever.bind fun _ _ h => h.elim
    · rw [if_neg isHalt]
      exact hend

mutual

/-- An expression and its code do the same. -/
theorem ExprCode.simulates (linked : Linked Γ.globals Γ.funcs data I M) {n : Node} {ty : Ty}
    {s s' : State} {code : Code} (h : ExprCode tag Γ n ty s code s')
    (hdata : s'.literals.data ⊆ data) {σ : Scene} {locals : Bytes → Option Word}
    {store : Store Word} (rel : SceneRel tag Γ pending σ locals store) (stack : List Word) :
    Run.Match (ValueRel tag Γ pending ty stack) (Source.eval I n σ)
      (execCode M code ⟨stack, locals, store⟩) := by
  cases h with
  | name declared =>
    obtain ⟨v, w, hread, holds, hload⟩ := rel.load (M := M) declared
    rw [Source.eval, hread, hload]
    exact match_next (.intro holds rel)
  | @number attr =>
    rw [Source.eval]
    cases hw : Word.ofNumeral? attr with
    | none =>
      rw [Wat.exec_const_none hw]
      exact .stopped rfl
    | some w =>
      rw [Wat.exec_const hw]
      exact match_next (.intro (.int w) rel)
  | trueLiteral =>
    rw [Source.eval, Wat.exec_number (by decide) (by decide)]
    exact match_next (.intro (.boolean true) rel)
  | falseLiteral =>
    rw [Source.eval, Wat.exec_number (by decide) (by decide)]
    exact match_next (.intro (.boolean false) rel)
  | @string attr =>
    rw [Source.eval]
    exact match_next (.intro (.string attr) rel)
  | assignment declared right =>
    rw [Source.eval]
    refine match_value (right.simulates linked hdata rel stack) ?_
    intro v σ₁ ws locals₁ store₁ holds rel₁
    obtain ⟨w, rfl⟩ := holds.single (rel.hasValue declared)
    obtain ⟨σ₂, locals₂, store₂, hwrite, rel₂, hexec⟩ := rel₁.store_load (M := M) declared holds
    rw [List.singleton_append, hexec]
    simp only [hwrite]
    exact match_next (.intro holds rel₂)
  | arithmetic isArith rule first second =>
    obtain ⟨hoperand, -⟩ := hasValue_of_typing isArith rule
    rw [eval_arith isArith, List.append_assoc]
    refine match_value
      (first.simulates linked (fun _ hd => hdata (second.data_subset hd)) rel stack) ?_
    intro v₁ σ₁ ws₁ locals₁ store₁ holds₁ rel₁
    refine match_value (second.simulates linked hdata rel₁ _) ?_
    intro v₂ σ₂ ws₂ locals₂ store₂ holds₂ rel₂
    obtain ⟨w₁, rfl⟩ := holds₁.single hoperand
    obtain ⟨w₂, rfl⟩ := holds₂.single hoperand
    rw [List.singleton_append, List.singleton_append]
    rcases combine_arith isArith rule holds₁ holds₂ with ⟨v, w, hv, hw, holds⟩ | ⟨hv, hw⟩
    · rw [hv, Wat.exec_arith hw]
      exact match_next (.intro holds rel₂)
    · rw [hv, Wat.exec_arith_none hw]
      exact .stopped rfl
  | and first second =>
    rw [Source.eval]
    refine match_value
      (first.simulates linked (fun _ hd => hdata (second.data_subset hd)) rel stack) ?_
    intro v σ₁ ws locals₁ store₁ holds rel₁
    cases holds with
    | boolean b =>
      cases b with
      | false =>
        rw [List.singleton_append, show Word.ofBool false = 0 from rfl, Wat.exec_cond_zero]
        exact match_decided false (Word.ofNumeral?_ofInt (by decide) (by decide)) rel₁
      | true =>
        rw [List.singleton_append, Wat.exec_cond (by decide)]
        exact match_arm (second.simulates linked hdata rel₁ [])
  | or first second =>
    rw [Source.eval]
    refine match_value
      (first.simulates linked (fun _ hd => hdata (second.data_subset hd)) rel stack) ?_
    intro v σ₁ ws locals₁ store₁ holds rel₁
    cases holds with
    | boolean b =>
      cases b with
      | false =>
        rw [List.singleton_append, show Word.ofBool false = 0 from rfl, Wat.exec_cond_zero]
        exact match_arm (second.simulates linked hdata rel₁ [])
      | true =>
        rw [List.singleton_append, Wat.exec_cond (by decide)]
        exact match_decided true (Word.ofNumeral?_ofInt (by decide) (by decide)) rel₁
  | negation operand =>
    rw [Source.eval, List.append_assoc, List.singleton_append,
      Wat.exec_number (by decide) (by decide)]
    refine match_value (operand.simulates linked hdata rel _) ?_
    intro v σ₁ ws locals₁ store₁ holds rel₁
    cases holds with
    | int w =>
      have hneg : Arith.sub.apply (BitVec.ofInt 32 0) w = some (-w) :=
        congrArg some (BitVec.zero_sub w)
      rw [List.singleton_append, Wat.exec_arith hneg]
      exact match_next (.intro (.int (-w)) rel₁)
  | complement operand =>
    rw [Source.eval]
    refine match_value (operand.simulates linked hdata rel stack) ?_
    intro v σ₁ ws locals₁ store₁ holds rel₁
    cases holds with
    | boolean b =>
      have hnot : Word.ofBool (Word.ofBool b == 0) = Word.ofBool !b := by cases b <;> rfl
      rw [List.singleton_append, Wat.exec_eqz, hnot]
      exact match_next (.intro (.boolean !b) rel₁)
  | call resolved valued arguments =>
    rw [Source.eval, Wat.execCode_append]
    refine (arguments.simulates linked hdata valued.params rel stack).bind ?_
    rintro _ _ ⟨holds, rel₁⟩
    exact match_call linked resolved valued holds rel₁ stack
  | @print attr loc note nameLoc nameNote nameCh listAttr listLoc listNote raw rawLoc rawNote rawCh
      s library =>
    obtain ⟨f, hcallee, hparams, hprints⟩ := linked.prints library
    have hmem : ⟨s.literals.size, Wat.escapeLiteral raw⟩ ∈ data :=
      hdata (List.mem_append_right _ List.mem_cons_self)
    obtain ⟨hoffset, hlength, hrun⟩ := hprints hmem rel.global
    -- the two numbers are the arguments, the last one on top
    have hexec : ∀ offset length : Word,
        execCode M [.op (.call (libraryName (utf8 "prints")))]
          ⟨length :: offset :: stack, locals, store⟩ =
        f.run [offset, length] store >>= fun p =>
          execCode M [] ⟨p.1.toList ++ stack, locals, p.2⟩ := by
      intro offset length
      show execCode M _ ⟨[offset, length].reverse ++ stack, locals, store⟩ = _
      exact Wat.exec_call hcallee hparams
    have hargs : Source.evalAll I [⟨.string, raw, rawLoc, rawNote, rawCh⟩] σ =
        pure ([.text raw], σ) := by
      simp only [Source.evalAll, Source.eval, Run.done_bind]
    rw [Source.eval, hargs, Wat.exec_number (by omega) (by omega),
      Wat.exec_number (by omega) (by omega), hexec]
    refine hrun.bind ?_
    rintro p q ⟨hvalue, hstore⟩
    exact match_next (.intro hvalue { rel with global := hstore })

/-- Arguments and their code do the same. -/
theorem ArgsCode.simulates (linked : Linked Γ.globals Γ.funcs data I M) {args : List Node}
    {tys : List Ty} {s s' : State} {code : Code} (h : ArgsCode tag Γ args tys s code s')
    (hdata : s'.literals.data ⊆ data) (hasValues : ∀ ty ∈ tys, ty.hasValue = true) {σ : Scene}
    {locals : Bytes → Option Word} {store : Store Word}
    (rel : SceneRel tag Γ pending σ locals store) (stack : List Word) :
    Run.Match (ValuesRel tag Γ pending tys stack) (Source.evalAll I args σ)
      (execCode M code ⟨stack, locals, store⟩) := by
  cases h with
  | nil =>
    rw [Source.evalAll]
    exact match_next (.intro .nil rel)
  | cons first commented others =>
    rw [Source.evalAll, Wat.execCode_append, commented.exec]
    refine (first.simulates linked (fun _ hd => hdata (others.data_subset hd)) rel stack).bind ?_
    rintro _ _ ⟨holds, rel₁⟩
    obtain ⟨w, rfl⟩ := holds.single (hasValues _ List.mem_cons_self)
    have hothers := others.simulates linked hdata
      (fun ty hty => hasValues ty (List.mem_cons_of_mem _ hty)) rel₁ ([w] ++ stack)
    refine hothers.bind_left ?_
    rintro _ _ ⟨holdAll, rel₂⟩
    refine ⟨_, rfl, ?_⟩
    rw [← List.append_assoc, ← List.reverse_cons]
    exact .intro (.cons holds holdAll) rel₂

end

end TreeWat.Lower
