import TreeWat.Proofs.Lower.Accepted
import TreeWat.Proofs.Source
set_option autoImplicit false

/-!
# Source: what keeps the rules does not go wrong

`Run.EndsWith` says at which stops a run may end and what holds of its value otherwise.
From the rules of the language alone follows that an expression yields a value of its
type, that a statement is left by `break` only inside a loop and returns only values of
the result type, and that all variables keep their types.  What is known about calls is
collected in `Interpreter.Sound`.

Which stops are allowed is left open, apart from those that a program that passed the
checker can come to: a literal that uses an unknown escape can only be printed where
`wrong` is allowed.
-/

namespace TreeWat

/-- The run ends with a value that satisfies `Q`, or at an allowed stop. -/
inductive Run.EndsWith {α : Type} (allowed : Stop → Prop) (Q : α → Prop) : Run α → Prop where
  | value {out a} (holds : Q a) : EndsWith allowed Q ⟨out, .ok a⟩
  | stopped {out e} (isAllowed : allowed e) : EndsWith allowed Q ⟨out, .error e⟩

namespace Run

variable {α β : Type} {allowed : Stop → Prop} {Q S : α → Prop} {R : β → Prop}

theorem EndsWith.pure {a : α} (holds : Q a) : EndsWith allowed Q (Pure.pure a) :=
  .value holds

theorem EndsWith.stop {e : Stop} (isAllowed : allowed e) : EndsWith allowed Q (Run.stop e) :=
  .stopped isAllowed

theorem EndsWith.bind {r : Run α} {k : α → Run β} (h : r.EndsWith allowed Q)
    (hk : ∀ a, Q a → (k a).EndsWith allowed R) : (r >>= k).EndsWith allowed R := by
  cases h with
  | stopped isAllowed => exact .stopped isAllowed
  | @value out a holds =>
    have hnext := hk a holds
    rw [ok_bind]
    rcases hka : k a with ⟨out', res⟩
    rw [hka] at hnext
    cases hnext with
    | value holds => exact .value holds
    | stopped isAllowed => exact .stopped isAllowed

/-- What is known of the value otherwise can be added. -/
theorem EndsWith.with {r : Run α} (h : r.EndsWith allowed Q) (also : ∀ a, r.res = .ok a → S a) :
    r.EndsWith allowed fun a => Q a ∧ S a := by
  cases h with
  | value holds => exact .value ⟨holds, also _ rfl⟩
  | stopped isAllowed => exact .stopped isAllowed

end Run

namespace Source

open Run (EndsWith)

/-! ## Types of values -/

/-- The type of a value. -/
def Value.type : Value → Ty
  | .int _ => .int
  | .bool _ => .boolean
  | .text _ => .string
  | .unit => .void

theorem Value.eq_int_of_type {v : Value} (h : v.type = .int) : ∃ w, v = .int w := by
  cases v with
  | int w => exact ⟨w, rfl⟩
  | _ => cases h

theorem Value.eq_bool_of_type {v : Value} (h : v.type = .boolean) : ∃ b, v = .bool b := by
  cases v with
  | bool b => exact ⟨b, rfl⟩
  | _ => cases h

theorem Value.type_initial {ty : Ty} (hasValue : ty.hasValue = true) :
    (Value.initial ty).type = ty := by
  cases ty with
  | int => rfl
  | boolean => rfl
  | _ => cases hasValue

/-! ## Types of variables -/

/-- Exactly the given variables are there, and each holds a value of its type. -/
def VarsTyped (vs : List (Bytes × Ty)) (vars : Bytes → Option Value) : Prop :=
  ∀ x, (vars x).map Value.type = vs.lookup x

section Vars

variable {vs : List (Bytes × Ty)} {vars : Bytes → Option Value} {x : Bytes} {ty : Ty} {v : Value}

theorem VarsTyped.get (h : VarsTyped vs vars) (declared : vs.lookup x = some ty) :
    ∃ v, vars x = some v ∧ v.type = ty :=
  Option.map_eq_some_iff.mp ((h x).trans declared)

theorem VarsTyped.none (h : VarsTyped vs vars) (other : vs.lookup x = none) : vars x = none :=
  Option.map_eq_none_iff.mp ((h x).trans other)

theorem VarsTyped.assign (h : VarsTyped vs vars) (declared : vs.lookup x = some ty)
    (typed : v.type = ty) : VarsTyped vs (assign vars x v) := by
  intro y
  by_cases hxy : y = x
  · subst hxy
    rw [assign_self, Option.map_some, typed, declared]
  · rw [assign_of_ne hxy, h y]

theorem VarsTyped.declare (h : VarsTyped vs vars) (fresh : x ∉ vs.map Prod.fst)
    (hasValue : ty.hasValue = true) :
    VarsTyped (vs ++ [(x, ty)]) (TreeWat.assign vars x (.initial ty)) := by
  intro y
  rw [List.lookup_append, ← h y]
  by_cases hxy : y = x
  · subst hxy
    rw [assign_self, h.none (lookup_eq_none_iff_not_mem.mpr fresh), List.lookup_cons_self,
      Option.map_some, Value.type_initial hasValue]
    rfl
  · rw [assign_of_ne hxy, List.lookup_cons, beq_false_of_ne hxy]
    exact (Option.or_none).symm

/-- Arguments of the types of the parameters make typed variables. -/
theorem VarsTyped.arguments {params : List (Bytes × Ty)} {args : List Value}
    (typed : args.map Value.type = params.map Prod.snd) :
    VarsTyped params fun x => ((params.map Prod.fst).zip args).lookup x := by
  intro x
  induction params generalizing args with
  | nil => rfl
  | cons p rest ih =>
    obtain ⟨y, ty⟩ := p
    cases args with
    | nil => cases typed
    | cons v vs =>
      obtain ⟨hfirst, hrest⟩ := List.cons_eq_cons.mp typed
      show (List.lookup x ((y, v) :: (rest.map Prod.fst).zip vs)).map Value.type = _
      rw [List.lookup_cons, List.lookup_cons]
      cases x == y with
      | true => exact congrArg some hfirst
      | false => exact ih hrest

end Vars

/-- The variables of the running function and the global ones hold values of their
types. -/
structure Scene.Typed (Γ : Names) (σ : Scene) : Prop where
  locals : VarsTyped Γ.locals σ.locals
  globals : VarsTyped Γ.globals σ.store.globals

section Scenes

variable {Γ : Names} {σ : Scene} {x : Bytes} {ty : Ty}

theorem Scene.Typed.read (h : σ.Typed Γ) (declared : Γ.var? x = some ty) :
    ∃ v, σ.read x = some v ∧ v.type = ty := by
  unfold Names.var? at declared
  unfold Scene.read
  cases hl : Γ.locals.lookup x with
  | some ty' =>
    rw [hl, Option.some_or] at declared
    cases declared
    obtain ⟨v, hv, htype⟩ := h.locals.get hl
    exact ⟨v, by rw [hv, Option.some_or], htype⟩
  | none =>
    rw [hl, Option.none_or] at declared
    obtain ⟨v, hv, htype⟩ := h.globals.get declared
    exact ⟨v, by rw [h.locals.none hl, Option.none_or, hv], htype⟩

theorem Scene.Typed.write (h : σ.Typed Γ) (declared : Γ.var? x = some ty) {v : Value}
    (typed : v.type = ty) : ∃ σ', σ.write x v = some σ' ∧ σ'.Typed Γ := by
  unfold Names.var? at declared
  unfold Scene.write
  cases hl : Γ.locals.lookup x with
  | some ty' =>
    rw [hl, Option.some_or] at declared
    cases declared
    obtain ⟨v', hv, -⟩ := h.locals.get hl
    rw [hv, if_pos Option.isSome_some]
    exact ⟨_, rfl, h.locals.assign hl typed, h.globals⟩
  | none =>
    rw [hl, Option.none_or] at declared
    obtain ⟨v', hv, -⟩ := h.globals.get declared
    rw [h.locals.none hl, hv, if_neg (by simp), if_pos Option.isSome_some]
    exact ⟨_, rfl, h.locals, h.globals.assign declared typed⟩

theorem Scene.Typed.declare (h : σ.Typed Γ) (fresh : x ∉ Γ.locals.map Prod.fst)
    (hasValue : ty.hasValue = true) :
    Scene.Typed (Γ.declare x ty) { σ with locals := assign σ.locals x (.initial ty) } where
  locals := h.locals.declare fresh hasValue
  globals := h.globals

end Scenes

/-! ## Operators -/

section Operators

variable {allowed : Stop → Prop} {op : BinaryOp} {v₁ v₂ : Value}

theorem combine_equality (isEquality : op = .eq ∨ op = .ne) {ty : Ty}
    (hasValue : ty = .int ∨ ty = .boolean) (h₁ : v₁.type = ty) (h₂ : v₂.type = ty) :
    EndsWith allowed (fun v => v.type = .boolean) (combine op v₁ v₂) := by
  rcases hasValue with rfl | rfl
  · obtain ⟨a, rfl⟩ := Value.eq_int_of_type h₁
    obtain ⟨b, rfl⟩ := Value.eq_int_of_type h₂
    rcases isEquality with rfl | rfl <;> exact .pure rfl
  · obtain ⟨a, rfl⟩ := Value.eq_bool_of_type h₁
    obtain ⟨b, rfl⟩ := Value.eq_bool_of_type h₂
    rcases isEquality with rfl | rfl <;> exact .pure rfl

theorem yieldOr_division (division : allowed .division) (w : Option Word) :
    EndsWith allowed (fun v => v.type = .int) (yieldOr .division (w.map Value.int)) := by
  cases w with
  | none => exact .stop division
  | some w => exact .pure rfl

theorem combine_arithmetic (division : allowed .division)
    (isArithmetic : op ∈ [.add, .sub, .mul, .div, .mod]) (h₁ : v₁.type = .int)
    (h₂ : v₂.type = .int) : EndsWith allowed (fun v => v.type = .int) (combine op v₁ v₂) := by
  obtain ⟨a, rfl⟩ := Value.eq_int_of_type h₁
  obtain ⟨b, rfl⟩ := Value.eq_int_of_type h₂
  simp only [List.mem_cons, List.not_mem_nil, or_false] at isArithmetic
  rcases isArithmetic with rfl | rfl | rfl | rfl | rfl
  · exact .pure rfl
  · exact .pure rfl
  · exact .pure rfl
  · exact yieldOr_division division _
  · exact yieldOr_division division _

theorem combine_comparison (isComparison : op ∈ [.lt, .gt, .le, .ge]) (h₁ : v₁.type = .int)
    (h₂ : v₂.type = .int) : EndsWith allowed (fun v => v.type = .boolean) (combine op v₁ v₂) := by
  obtain ⟨a, rfl⟩ := Value.eq_int_of_type h₁
  obtain ⟨b, rfl⟩ := Value.eq_int_of_type h₂
  simp only [List.mem_cons, List.not_mem_nil, or_false] at isComparison
  rcases isComparison with rfl | rfl | rfl | rfl <;> exact .pure rfl

end Operators

/-! ## Calls -/

/-- Printing the literal stops only where that is allowed. -/
def Printable (allowed : Stop → Prop) (raw : Bytes) : Prop :=
  (literalBytes? raw).isSome = true ∨ allowed .wrong

/-- What a call yields: a value of the type, and global variables that kept theirs. -/
def ResultTyped (globals : List (Bytes × Ty)) (ty : Ty) (p : Value × Store Value) : Prop :=
  p.1.type = ty ∧ VarsTyped globals p.2.globals

/-- What calls do among the given global variables and functions: with arguments of the
right types they yield a value of the result type, or stop where that is allowed. -/
structure Interpreter.Sound (allowed : Stop → Prop) (globals : List (Bytes × Ty))
    (funcs : List (Bytes × Signature)) (I : Interpreter) : Prop where
  expected : ∀ {e}, e.expected = true → allowed e
  call : ∀ {name sig args store}, Names.func? ⟨[], globals, funcs⟩ name = some sig →
    sig.Valued → args.map Value.type = sig.params → VarsTyped globals store.globals →
    EndsWith allowed (ResultTyped globals sig.result) (I.call name args store)
  prints : ∀ {raw store}, funcs.lookup (utf8 "prints") = none → Printable allowed raw →
    VarsTyped globals store.globals →
    EndsWith allowed (ResultTyped globals .void) (I.call (utf8 "prints") [.text raw] store)

/-! ## Expressions -/

section Expressions

variable {allowed : Stop → Prop} {I : Interpreter} {Γ : Names} {σ : Scene}

/-- What an expression yields: a value of the type, and variables that kept theirs. -/
def ValueTyped (Γ : Names) (ty : Ty) (p : Value × Scene) : Prop :=
  p.1.type = ty ∧ p.2.Typed Γ

theorem asBool_ends {v : Value} (typed : v.type = .boolean) :
    EndsWith allowed (fun _ => True) (asBool v) := by
  obtain ⟨b, rfl⟩ := Value.eq_bool_of_type typed
  exact .pure trivial

theorem evalAll_sound {args : List Node} {tys : List Ty} (count : args.length = tys.length)
    (each : ∀ p ∈ args.zip tys, ∀ {σ : Scene}, σ.Typed Γ →
      EndsWith allowed (ValueTyped Γ p.2) (eval I p.1 σ)) (h : σ.Typed Γ) :
    EndsWith allowed (fun p => p.1.map Value.type = tys ∧ p.2.Typed Γ) (evalAll I args σ) := by
  induction args generalizing tys σ with
  | nil =>
    obtain rfl : tys = [] := List.eq_nil_of_length_eq_zero count.symm
    rw [evalAll]
    exact .pure ⟨rfl, h⟩
  | cons a rest ih =>
    cases tys with
    | nil => cases count
    | cons ty tys =>
      rw [evalAll]
      refine (each (a, ty) List.mem_cons_self h).bind ?_
      rintro ⟨v, σ₁⟩ ⟨hv, h₁⟩
      refine (ih (Nat.succ.inj count) (fun p hp => each p (List.mem_cons_of_mem _ hp)) h₁).bind ?_
      rintro ⟨vs, σ₂⟩ ⟨hvs, h₂⟩
      exact .pure ⟨List.cons_eq_cons.mpr ⟨hv, hvs⟩, h₂⟩

/-- An operator that evaluates both operands. -/
theorem eval_both {op : BinaryOp} (both : op ≠ .assign ∧ op ≠ .and ∧ op ≠ .or) {attr : Bytes}
    {loc : Location} {note : Option Annotation} {l r : Node} {left right ty : Ty}
    (hl : ∀ {σ : Scene}, σ.Typed Γ → EndsWith allowed (ValueTyped Γ left) (eval I l σ))
    (hr : ∀ {σ : Scene}, σ.Typed Γ → EndsWith allowed (ValueTyped Γ right) (eval I r σ))
    (combined : ∀ {v₁ v₂}, v₁.type = left → v₂.type = right →
      EndsWith allowed (fun v => v.type = ty) (combine op v₁ v₂)) (h : σ.Typed Γ) :
    EndsWith allowed (ValueTyped Γ ty) (eval I ⟨.binary op, attr, loc, note, [l, r]⟩ σ) := by
  obtain ⟨notAssign, notAnd, notOr⟩ := both
  rw [eval]
  · refine (hl h).bind ?_
    rintro ⟨v₁, σ₁⟩ ⟨hv₁, h₁⟩
    refine (hr h₁).bind ?_
    rintro ⟨v₂, σ₂⟩ ⟨hv₂, h₂⟩
    exact (combined hv₁ hv₂).bind fun v hv => .pure ⟨hv, h₂⟩
  · exact notAssign
  · exact notAnd
  · exact notOr

/-- A call of `prints` with the literal that it prints. -/
theorem eval_print (sound : I.Sound allowed Γ.globals Γ.funcs)
    (library : Γ.funcs.lookup (utf8 "prints") = none) {attr : Bytes} {loc : Location}
    {note : Option Annotation} {nameLoc : Location} {nameNote : Option Annotation}
    {nameCh : List Node} {listAttr : Bytes} {listLoc : Location} {listNote : Option Annotation}
    {literal : Node} (isLiteral : literal.kind = .string)
    (printed : PrintedAll (Printable allowed) ⟨.functionInvocation, attr, loc, note,
      [⟨.id, utf8 "prints", nameLoc, nameNote, nameCh⟩,
        ⟨.argumentList, listAttr, listLoc, listNote, [literal]⟩]⟩) (h : σ.Typed Γ) :
    EndsWith allowed (ValueTyped Γ .void) (eval I ⟨.functionInvocation, attr, loc, note,
      [⟨.id, utf8 "prints", nameLoc, nameNote, nameCh⟩,
        ⟨.argumentList, listAttr, listLoc, listNote, [literal]⟩]⟩ σ) := by
  rcases literal with ⟨kind, raw, rawLoc, rawNote, rawCh⟩
  obtain rfl : kind = .string := isLiteral
  have hprintable : Printable allowed raw :=
    printed _ (Node.mem_preorder_self _) raw (by simp [printed?])
  have hargs : evalAll I [⟨.string, raw, rawLoc, rawNote, rawCh⟩] σ = pure ([.text raw], σ) := by
    simp only [evalAll, eval, Run.done_bind]
  rw [eval, hargs, Run.done_bind]
  refine (sound.prints library hprintable h.globals).bind ?_
  rintro ⟨v, store⟩ ⟨hv, hstore⟩
  exact .pure ⟨hv, h.locals, hstore⟩

/-- An expression yields a value of its type, or stops where that is allowed. -/
theorem eval_sound (sound : I.Sound allowed Γ.globals Γ.funcs) (valued : Γ.Valued) {n : Node}
    {ty : Ty} (typed : HasType Γ n ty) (printed : PrintedAll (Printable allowed) n)
    (h : σ.Typed Γ) : EndsWith allowed (ValueTyped Γ ty) (eval I n σ) := by
  induction typed generalizing σ with
  | name declared =>
    obtain ⟨v, hv, htype⟩ := h.read declared
    rw [eval, hv]
    exact .pure ⟨htype, h⟩
  | @number attr =>
    rw [eval]
    cases Word.ofNumeral? attr with
    | none => exact .stop (sound.expected rfl)
    | some w => exact .pure ⟨rfl, h⟩
  | trueLiteral | falseLiteral | string =>
    rw [eval]
    exact .pure ⟨rfl, h⟩
  | @assignment _ _ _ l r ty target left right _ ihr =>
    rw [eval]
    refine (ihr (printed.child (by simp)) h).bind ?_
    rintro ⟨v, σ₁⟩ ⟨hv, h₁⟩
    cases left with
    | name declared =>
      obtain ⟨σ₂, hwrite, h₂⟩ := h₁.write declared hv
      simp only [hwrite]
      exact .pure ⟨hv, h₂⟩
    | _ => simp at target
  | equality isEquality hasValue _ _ ihl ihr =>
    refine eval_both ?_ (ihl (printed.child (by simp))) (ihr (printed.child (by simp)))
      (combine_equality isEquality hasValue) h
    rcases isEquality with rfl | rfl <;> decide
  | arithmetic isArithmetic _ _ ihl ihr =>
    refine eval_both ?_ (ihl (printed.child (by simp))) (ihr (printed.child (by simp)))
      (combine_arithmetic (sound.expected rfl) isArithmetic) h
    refine ⟨?_, ?_, ?_⟩ <;> rintro rfl <;> simp at isArithmetic
  | comparison isComparison _ _ ihl ihr =>
    refine eval_both ?_ (ihl (printed.child (by simp))) (ihr (printed.child (by simp)))
      (combine_comparison isComparison) h
    refine ⟨?_, ?_, ?_⟩ <;> rintro rfl <;> simp at isComparison
  | logical isLogical _ _ ihl ihr =>
    have hl := ihl (printed.child (by simp)) h
    rcases isLogical with rfl | rfl
    · rw [eval]
      refine hl.bind ?_
      rintro ⟨v, σ₁⟩ ⟨hv, h₁⟩
      obtain ⟨b, rfl⟩ := Value.eq_bool_of_type hv
      cases b with
      | true => exact ihr (printed.child (by simp)) h₁
      | false => exact .pure ⟨rfl, h₁⟩
    · rw [eval]
      refine hl.bind ?_
      rintro ⟨v, σ₁⟩ ⟨hv, h₁⟩
      obtain ⟨b, rfl⟩ := Value.eq_bool_of_type hv
      cases b with
      | true => exact .pure ⟨rfl, h₁⟩
      | false => exact ihr (printed.child (by simp)) h₁
  | negation _ ih =>
    rw [eval]
    refine (ih (printed.child (by simp)) h).bind ?_
    rintro ⟨v, σ₁⟩ ⟨hv, h₁⟩
    obtain ⟨w, rfl⟩ := Value.eq_int_of_type hv
    exact .pure ⟨rfl, h₁⟩
  | complement _ ih =>
    rw [eval]
    refine (ih (printed.child (by simp)) h).bind ?_
    rintro ⟨v, σ₁⟩ ⟨hv, h₁⟩
    obtain ⟨b, rfl⟩ := Value.eq_bool_of_type hv
    exact .pure ⟨rfl, h₁⟩
  | @call _ _ _ name _ _ _ listAttr listLoc listNote args sig resolved count arguments ih =>
    rcases valued.func resolved with hvalued | ⟨library, rfl, rfl⟩
    · have hlist : PrintedAll (Printable allowed)
          ⟨.argumentList, listAttr, listLoc, listNote, args⟩ := printed.child (by simp)
      have hargs : ∀ p ∈ args.zip sig.params, ∀ {σ : Scene}, σ.Typed Γ →
          EndsWith allowed (ValueTyped Γ p.2) (eval I p.1 σ) := fun p hp =>
        ih p hp (hlist.child (List.of_mem_zip hp).1)
      rw [eval]
      refine (evalAll_sound count hargs h).bind ?_
      rintro ⟨vs, σ₁⟩ ⟨hvs, h₁⟩
      refine (sound.call resolved hvalued hvs h₁.globals).bind ?_
      rintro ⟨v, store⟩ ⟨hv, hstore⟩
      exact .pure ⟨hv, h₁.locals, hstore⟩
    · -- only `prints` takes a string, and only a literal is one
      obtain ⟨literal, rfl⟩ := List.length_eq_one_iff.mp count
      have hliteral := arguments (literal, .string) List.mem_cons_self
      exact eval_print sound library (Lower.kind_of_hasType_string valued hliteral rfl) printed h

theorem test_sound (sound : I.Sound allowed Γ.globals Γ.funcs) (valued : Γ.Valued) {cond : Node}
    (typed : HasType Γ cond .boolean) (printed : PrintedAll (Printable allowed) cond)
    (h : σ.Typed Γ) : EndsWith allowed (fun p => p.2.Typed Γ) (test I cond σ) := by
  refine (eval_sound sound valued typed printed h).bind ?_
  rintro ⟨v, σ₁⟩ ⟨hv, h₁⟩
  exact (asBool_ends hv).bind fun _ _ => .pure h₁

end Expressions

/-! ## Statements -/

/-- How a statement that keeps the rules ends. -/
inductive ExitTyped (Γ : Names) (result : Ty) (inLoop : Bool) : Exit × Scene → Prop where
  | next {σ} (typed : σ.Typed Γ) : ExitTyped Γ result inLoop (.next, σ)
  | break {σ} (surrounded : inLoop = true) (typed : σ.Typed Γ) :
      ExitTyped Γ result inLoop (.break, σ)
  | return {v σ} (hasType : v.type = result) (typed : σ.Typed Γ) :
      ExitTyped Γ result inLoop (.return v, σ)

section Statements

variable {allowed : Stop → Prop} {I : Interpreter} {Γ : Names} {σ : Scene} {result : Ty}
  {inLoop : Bool}

theorem execAll_sound {ss : List Node}
    (each : ∀ s ∈ ss, ∀ {σ : Scene}, σ.Typed Γ →
      EndsWith allowed (ExitTyped Γ result inLoop) (exec I s σ)) (h : σ.Typed Γ) :
    EndsWith allowed (ExitTyped Γ result inLoop) (execAll I ss σ) := by
  induction ss generalizing σ with
  | nil =>
    rw [execAll]
    exact .pure (.next h)
  | cons s rest ih =>
    rw [execAll]
    refine (each s List.mem_cons_self h).bind ?_
    rintro _ (h₁ | ⟨surrounded, h₁⟩ | ⟨hv, h₁⟩)
    · exact ih (fun t ht => each t (List.mem_cons_of_mem _ ht)) h₁
    · exact .pure (.break surrounded h₁)
    · exact .pure (.return hv h₁)

/-- A loop is not left by a `break` of its own; the induction is on the fuel. -/
theorem repeatWhile_sound (outOfFuel : allowed .outOfFuel)
    {condition : Scene → Run (Bool × Scene)} {body : Scene → Run (Exit × Scene)}
    (hcondition : ∀ {σ : Scene}, σ.Typed Γ → EndsWith allowed (fun p => p.2.Typed Γ) (condition σ))
    (hbody : ∀ {σ : Scene}, σ.Typed Γ → EndsWith allowed (ExitTyped Γ result true) (body σ))
    (n : Nat) (h : σ.Typed Γ) :
    EndsWith allowed (ExitTyped Γ result inLoop) (repeatWhile condition body n σ) := by
  induction n generalizing σ with
  | zero =>
    rw [repeatWhile]
    refine (hcondition h).bind ?_
    rintro ⟨_ | _, σ₁⟩ h₁
    · exact .pure (.next h₁)
    · exact .stop outOfFuel
  | succ n ih =>
    rw [repeatWhile]
    refine (hcondition h).bind ?_
    rintro ⟨_ | _, σ₁⟩ h₁
    · exact .pure (.next h₁)
    · refine (hbody h₁).bind ?_
      rintro _ (h₂ | ⟨-, h₂⟩ | ⟨hv, h₂⟩)
      · exact ih h₂
      · exact .pure (.next h₂)
      · exact .pure (.return hv h₂)

/-- A statement that keeps the rules leaves by `break` only inside a loop and returns only
values of the result type. -/
theorem exec_sound (sound : I.Sound allowed Γ.globals Γ.funcs) (valued : Γ.Valued) {n : Node}
    (obeys : Obeys Γ result inLoop n) (printed : PrintedAll (Printable allowed) n)
    (h : σ.Typed Γ) : EndsWith allowed (ExitTyped Γ result inLoop) (exec I n σ) := by
  induction obeys generalizing σ with
  | block _ ih =>
    rw [exec]
    exact execAll_sound (fun s hs => ih s hs (printed.child hs)) h
  | expression typed =>
    rw [exec]
    refine (eval_sound sound valued typed (printed.child (by simp)) h).bind ?_
    rintro ⟨v, σ₁⟩ ⟨-, h₁⟩
    exact .pure (.next h₁)
  | @call _ n _ isCall typed =>
    have heval := eval_sound sound valued typed printed h
    rcases n with ⟨kind, attr, loc, note, children⟩
    obtain rfl : kind = .functionInvocation := isCall
    rw [exec]
    refine heval.bind ?_
    rintro ⟨v, σ₁⟩ ⟨-, h₁⟩
    exact .pure (.next h₁)
  | null =>
    rw [exec]
    exact .pure (.next h)
  | ifThen condition _ ih =>
    rw [exec]
    refine (test_sound sound valued condition (printed.child (by simp)) h).bind ?_
    rintro ⟨_ | _, σ₁⟩ h₁
    · exact .pure (.next h₁)
    · exact ih (printed.child (by simp)) h₁
  | ifElse condition _ _ ih₁ ih₂ =>
    rw [exec]
    refine (test_sound sound valued condition (printed.child (by simp)) h).bind ?_
    rintro ⟨_ | _, σ₁⟩ h₁
    · exact ih₂ (printed.child (by simp)) h₁
    · exact ih₁ (printed.child (by simp)) h₁
  | «while» condition _ ih =>
    rw [exec]
    exact repeatWhile_sound (sound.expected rfl)
      (test_sound sound valued condition (printed.child (by simp))) (ih (printed.child (by simp)))
      I.fuel h
  | returnNothing isVoid =>
    rw [exec]
    exact .pure (.return isVoid.symm h)
  | returnValue _ typed =>
    rw [exec]
    refine (eval_sound sound valued typed (printed.child (by simp)) h).bind ?_
    rintro ⟨v, σ₁⟩ ⟨hv, h₁⟩
    exact .pure (.return hv h₁)
  | «break» =>
    rw [exec]
    exact .pure (.break rfl h)

end Statements

/-! ## Functions -/

/-- How the body of a function that keeps the rules ends. -/
inductive EndTyped (globals : List (Bytes × Ty)) (result : Ty) : Exit × Scene → Prop where
  | next {σ} (typed : VarsTyped globals σ.store.globals) : EndTyped globals result (.next, σ)
  | return {v σ} (hasType : v.type = result) (typed : VarsTyped globals σ.store.globals) :
      EndTyped globals result (.return v, σ)

section Functions

variable {allowed : Stop → Prop} {I : Interpreter} {σ : Scene} {result : Ty}
  {globals : List (Bytes × Ty)} {funcs : List (Bytes × Signature)}

theorem body_sound {Γ : Names} (sound : I.Sound allowed Γ.globals Γ.funcs) (valued : Γ.Valued)
    {ss : List Node} (obeys : BodyObeys result Γ ss)
    (distinct : ((Γ.locals ++ declaredBy ss).map Prod.fst).Nodup)
    (printed : ∀ s ∈ ss, PrintedAll (Printable allowed) s) (h : σ.Typed Γ) :
    EndsWith allowed (EndTyped Γ.globals result) (execAll I ss σ) := by
  induction obeys generalizing σ with
  | nil =>
    rw [execAll]
    exact .pure (.next h.globals)
  | @declaration Γ s rest name ty isDeclaration binds _ ih =>
    rw [declaredBy_declaration isDeclaration binds] at distinct
    have fresh : name ∉ Γ.locals.map Prod.fst := by
      intro hmem
      rw [List.map_append, List.nodup_append] at distinct
      exact distinct.2.2 name hmem name (by simp) rfl
    have hasValue : ty.hasValue = true := Node.binding?_hasValue binds
    have hdeclare : exec I s σ =
        pure (.next, { σ with locals := assign σ.locals name (.initial ty) }) := by
      rcases s with ⟨kind, attr, loc, note, children⟩
      obtain rfl : kind = .variableDeclaration := isDeclaration
      rw [exec, binds]
    rw [execAll, hdeclare, Run.done_bind]
    exact ih sound (valued.declare hasValue) (by simpa [Names.declare] using distinct)
      (fun t ht => printed t (List.mem_cons_of_mem _ ht)) (h.declare fresh hasValue)
  | @statement Γ s rest first _ ih =>
    rw [declaredBy_other (Check.kind_ne_of_obeys first)] at distinct
    rw [execAll]
    refine (exec_sound sound valued first (printed s List.mem_cons_self) h).bind ?_
    rintro _ (h₁ | ⟨outside, -⟩ | ⟨hv, h₁⟩)
    · exact ih sound valued distinct (fun t ht => printed t (List.mem_cons_of_mem _ ht)) h₁
    · -- no loop surrounds the outermost block
      cases outside
    · exact .pure (.return hv h₁.globals)

variable {d resultNode name list body : Node} {params : List (Bytes × Ty)} {args : List Value}
  {store : Store Value}

/-- The body of a function that keeps the rules, started with arguments of the right types,
if control does not come to its end where a result is due. -/
theorem functionBody_sound (sound : I.Sound allowed globals funcs)
    (valued : Names.Valued ⟨[], globals, funcs⟩) (obeys : FunctionObeys globals funcs d)
    (printed : PrintedAll (Printable allowed) d)
    (parts : d.children = [resultNode, name, list, body])
    (isResult : resultNode.kind.type? = some result) (binds : parameters? d = some params)
    (returns : result ≠ .void → ∀ σ σ', (execAll I body.children σ).res ≠ .ok (.next, σ'))
    (hargs : args.map Value.type = params.map Prod.snd)
    (hstore : VarsTyped globals store.globals) :
    EndsWith allowed (fun p => EndTyped globals result p ∧ (result ≠ .void → p.1 ≠ .next))
      (execAll I body.children ⟨fun x => ((params.map Prod.fst).zip args).lookup x, store⟩) := by
  have hbody : PrintedAll (Printable allowed) body := printed.child (by rw [parts]; simp)
  have hends : EndsWith allowed (EndTyped globals result)
      (execAll I body.children ⟨fun x => ((params.map Prod.fst).zip args).lookup x, store⟩) := by
    cases obeys with
    | @intro _ _ _ _ _ _ _ _ _ ps _ _ _ ss result' params' isResult' _ binds' distinct obeys =>
      cases parts
      obtain rfl : result' = result := Option.some.inj (isResult'.symm.trans isResult)
      obtain rfl : params' = params := Option.some.inj (binds'.symm.trans binds)
      have hvalued : Names.Valued ⟨params', globals, funcs⟩ :=
        ⟨bindings_hasValue binds', valued.globals, valued.funcs⟩
      exact body_sound sound hvalued obeys distinct (fun s hs => hbody.child hs)
        ⟨.arguments hargs, hstore⟩
  refine hends.with ?_
  rintro ⟨exit, σ⟩ hres hasResult rfl
  exact returns hasResult _ σ hres

/-- A function that keeps the rules yields a value of its result type. -/
theorem enter_sound (sound : I.Sound allowed globals funcs)
    (valued : Names.Valued ⟨[], globals, funcs⟩) (obeys : FunctionObeys globals funcs d)
    (printed : PrintedAll (Printable allowed) d)
    (parts : d.children = [resultNode, name, list, body])
    (isResult : resultNode.kind.type? = some result) (binds : parameters? d = some params)
    (returns : result ≠ .void → ∀ σ σ', (execAll I body.children σ).res ≠ .ok (.next, σ'))
    (hargs : args.map Value.type = params.map Prod.snd)
    (hstore : VarsTyped globals store.globals) :
    EndsWith allowed (ResultTyped globals result) (enter I d args store) := by
  have hcount : args.length = params.length := by
    simpa using congrArg List.length hargs
  unfold enter
  rw [parts, binds]
  dsimp only
  rw [if_pos hcount]
  refine (functionBody_sound sound valued obeys printed parts isResult binds returns hargs
    hstore).bind ?_
  rintro p ⟨hend, hreturns⟩
  cases hend with
  | next typed =>
    by_cases isVoid : result = .void
    · subst isVoid
      rw [finish, if_pos (Kind.eq_void_of_type? isResult)]
      exact .pure ⟨rfl, typed⟩
    · exact absurd rfl (hreturns isVoid)
  | «return» hv typed => exact .pure ⟨hv, typed⟩

end Functions

/-! ## The library -/

section Library

variable {allowed : Stop → Prop} {globals : List (Bytes × Ty)} {store : Store Value}

theorem map_type_singleton {args : List Value} {ty : Ty} (h : args.map Value.type = [ty]) :
    ∃ v, args = [v] ∧ v.type = ty := by
  obtain ⟨v, rfl⟩ := List.length_eq_one_iff.mp (by simpa using congrArg List.length h)
  exact ⟨v, rfl, List.head_eq_of_cons_eq h⟩

/-- A function of the library that takes values yields one of its result type, or nothing. -/
theorem builtin_sound (expected : ∀ {e}, e.expected = true → allowed e) {name : Bytes}
    {sig : Signature} (known : Scope.builtinFunctions.lookup name = some sig)
    (valued : sig.Valued) {args : List Value} (hargs : args.map Value.type = sig.params)
    (hstore : VarsTyped globals store.globals) :
    EndsWith allowed (ResultTyped globals sig.result) (builtin name args store) := by
  have hmem := mem_of_lookup known
  simp only [Scope.builtinFunctions, List.mem_cons, Prod.mk.injEq, List.not_mem_nil, or_false]
    at hmem
  rcases hmem with ⟨rfl, rfl⟩ | ⟨rfl, rfl⟩ | ⟨rfl, rfl⟩ | ⟨rfl, rfl⟩ | ⟨rfl, rfl⟩ | ⟨rfl, rfl⟩
  · obtain rfl := List.map_eq_nil_iff.mp hargs
    exact .value ⟨rfl, hstore⟩
  · obtain rfl := List.map_eq_nil_iff.mp hargs
    exact .stop (expected rfl)
  · obtain ⟨v, rfl, hv⟩ := map_type_singleton hargs
    obtain ⟨b, rfl⟩ := Value.eq_bool_of_type hv
    exact .value ⟨rfl, hstore⟩
  · obtain ⟨v, rfl, hv⟩ := map_type_singleton hargs
    obtain ⟨w, rfl⟩ := Value.eq_int_of_type hv
    exact .value ⟨rfl, hstore⟩
  · obtain ⟨v, rfl, hv⟩ := map_type_singleton hargs
    obtain ⟨w, rfl⟩ := Value.eq_int_of_type hv
    exact .value ⟨rfl, hstore⟩
  · exact absurd (valued.params .string List.mem_cons_self) (by decide)

theorem builtin_prints_sound {raw : Bytes} (printable : Printable allowed raw)
    (hstore : VarsTyped globals store.globals) :
    EndsWith allowed (ResultTyped globals .void) (builtin (utf8 "prints") [.text raw] store) := by
  simp only [builtin, if_true]
  cases hbytes : literalBytes? raw with
  | some bytes => exact .value ⟨rfl, hstore⟩
  | none =>
    rcases printable with hsome | hwrong
    · rw [hbytes] at hsome
      cases hsome
    · exact .stop hwrong

end Library

/-! ## The start -/

theorem declaredBy_hasValue {ss : List Node} : ∀ v ∈ declaredBy ss, v.2.hasValue = true := by
  intro v hv
  obtain ⟨s, -, binds⟩ := List.mem_filterMap.mp hv
  exact Node.binding?_hasValue binds

/-- The global variables of a program start with values of their types. -/
theorem initialStore_typed (ds : List Node) (input : Nat → Word) :
    VarsTyped (declaredBy ds) (initialStore ds input).globals := by
  intro x
  show (((declaredBy ds).lookup x).map Value.initial).map Value.type = _
  cases hx : (declaredBy ds).lookup x with
  | none => rfl
  | some ty => exact congrArg some (Value.type_initial (declaredBy_hasValue _ (mem_of_lookup hx)))

end Source

end TreeWat
