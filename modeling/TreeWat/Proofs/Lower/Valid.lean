import Mathlib.Data.List.Nodup
import TreeWat.Proofs.Lower.Program
import TreeWat.Proofs.Wat.Valid
set_option autoImplicit false

/-!
# Lower: generated modules validate

An expression leaves one value more on the stack if its type has one, and none
otherwise; a statement leaves the stack as it found it.  Both are proved along the
relations of `Code`, for any names that a function's locals, the globals and the
functions of a module cover.  The rest of validation is about names being distinct.
-/

namespace TreeWat.Lower

open Wat (Code Op Arith Instr Arity Scoping OpValid InstrValid CodeValid)

/-- How many values an expression of this type leaves. -/
def valueCount (ty : Ty) : Nat :=
  ty.hasValue.toNat

/-- The globals and functions of a module cover those of the source. -/
structure CoversGlobals (Φ : Scoping) (globals : List (Bytes × Ty))
    (funcs : List (Bytes × Signature)) : Prop where
  globals : ∀ v ∈ globals, globalName v.1 ∈ Φ.globals
  funcs : ∀ v ∈ funcs, (globalName v.1, ⟨v.2.params.length, valueCount v.2.result⟩) ∈ Φ.funcs
  library : ∀ v ∈ Scope.builtinFunctions, v.2.Valued →
    (libraryName v.1, ⟨v.2.params.length, valueCount v.2.result⟩) ∈ Φ.funcs
  prints : (libraryName (utf8 "prints"), ⟨2, 0⟩) ∈ Φ.funcs

/-- The names of a module function cover those of the source. -/
structure Covers (Φ : Scoping) (tag : Bytes) (Γ : Names) : Prop
    extends CoversGlobals Φ Γ.globals Γ.funcs where
  locals : ∀ v ∈ Γ.locals, localName tag v.1 ∈ Φ.locals
  scratch : scratch ∈ Φ.locals

variable {Φ : Scoping} {tag : Bytes} {Γ : Names} {labels : List Bytes}

/-! ## Variables and calls -/

theorem Covers.load (h : Covers Φ tag Γ) {name : Bytes} {ty : Ty}
    (declared : Γ.var? name = some ty) (k : Nat) :
    OpValid Φ labels (loadOp tag Γ name) k (k + 1) := by
  unfold loadOp
  unfold Names.var? at declared
  cases hl : Γ.locals.lookup name with
  | some ty' => exact .localGet (h.locals _ (mem_of_lookup hl))
  | none =>
    rw [hl, Option.none_or] at declared
    exact .globalGet (h.globals _ (mem_of_lookup declared))

theorem Covers.store (h : Covers Φ tag Γ) {name : Bytes} {ty : Ty}
    (declared : Γ.var? name = some ty) (k : Nat) :
    OpValid Φ labels (storeOp tag Γ name) (k + 1) k := by
  unfold storeOp
  unfold Names.var? at declared
  cases hl : Γ.locals.lookup name with
  | some ty' => exact .localSet (h.locals _ (mem_of_lookup hl))
  | none =>
    rw [hl, Option.none_or] at declared
    exact .globalSet (h.globals _ (mem_of_lookup declared))

/-- A call takes its arguments off the stack and leaves its result. -/
theorem Covers.call (h : Covers Φ tag Γ) {name : Bytes} {sig : Signature}
    (resolved : Γ.func? name = some sig) (valued : sig.Valued) (k : Nat) :
    CodeValid Φ labels (callOps Γ name) (k + sig.params.length) (k + valueCount sig.result) := by
  unfold callOps
  unfold Names.func? at resolved
  cases hf : Γ.funcs.lookup name with
  | some sig' =>
    rw [hf, Option.some_or] at resolved
    cases resolved
    have hcall := h.funcs _ (mem_of_lookup hf)
    exact .single (.op (.call hcall))
  | none =>
    rw [hf, Option.none_or] at resolved
    have hcall := h.library _ (mem_of_lookup resolved) valued
    simp only [Option.isSome_none, Bool.false_eq_true, if_false]
    split
    · exact .op (.call hcall) (.single (.op .unreachable))
    · exact .single (.op (.call hcall))

theorem Commented.valid {code code' : Code} (h : Commented code code') {a b : Nat}
    (valid : CodeValid Φ labels code a b) : CodeValid Φ labels code' a b := by
  cases h with
  | bare => exact valid
  | comment text => exact valid.append (.single .comment)

/-! ## Expressions -/

theorem valueCount_of_hasValue {ty : Ty} (h : ty.hasValue = true) : valueCount ty = 1 := by
  unfold valueCount
  rw [h]
  rfl

theorem hasValue_of_typing {op : BinaryOp} {a : Arith} {operand ty : Ty}
    (isArith : arith? op = some a) (rule : op.typing operand operand = .ok ty) :
    operand.hasValue = true ∧ ty.hasValue = true := by
  cases op <;> simp only [arith?, reduceCtorEq] at isArith <;> cases operand <;>
    simp [BinaryOp.typing, BinaryOp.uniform, Ty.hasValue] at rule ⊢ <;> subst rule <;> simp

mutual

/-- The code of an expression adds the value of the expression to the stack. -/
theorem ExprCode.valid (covers : Covers Φ tag Γ) (valued : Γ.Valued) {n : Node} {ty : Ty}
    {s s' : State} {code : Code} (h : ExprCode tag Γ n ty s code s') (labels : List Bytes)
    (k : Nat) : CodeValid Φ labels code k (k + valueCount ty) := by
  cases h with
  | name declared =>
    rw [valueCount_of_hasValue (valued.var declared)]
    exact .single (.op (covers.load declared k))
  | number => exact .single (.op .const)
  | trueLiteral => exact .single (.op .const)
  | falseLiteral => exact .single (.op .const)
  | string => exact .nil
  | assignment declared right =>
    have hright := right.valid covers valued labels k
    rw [valueCount_of_hasValue (valued.var declared)] at hright ⊢
    exact hright.append
      (.op (covers.store declared k) (.single (.op (covers.load declared k))))
  | arithmetic isArith rule first second =>
    obtain ⟨hoperand, hresult⟩ := hasValue_of_typing isArith rule
    have hleft := first.valid covers valued labels k
    have hright := second.valid covers valued labels (k + 1)
    rw [valueCount_of_hasValue hoperand] at hleft hright
    rw [valueCount_of_hasValue hresult]
    exact (hleft.append hright).append (.single (.op .arith))
  | and first second =>
    have hleft := first.valid covers valued labels k
    have hright := second.valid covers valued labels 0
    refine hleft.append (.cons (.cond ?_ ?_) (.single (.op (.localGet covers.scratch))))
    · exact hright.append (.single (.op (.localSet covers.scratch)))
    · exact .op .const (.single (.op (.localSet covers.scratch)))
  | or first second =>
    have hleft := first.valid covers valued labels k
    have hright := second.valid covers valued labels 0
    refine hleft.append (.cons (.cond ?_ ?_) (.single (.op (.localGet covers.scratch))))
    · exact .op .const (.single (.op (.localSet covers.scratch)))
    · exact hright.append (.single (.op (.localSet covers.scratch)))
  | negation operand =>
    have hoperand := operand.valid covers valued labels (k + 1)
    exact CodeValid.append (.op .const hoperand) (.single (.op .arith))
  | complement operand =>
    exact (operand.valid covers valued labels k).append (.single (.op .eqz))
  | call resolved hvalued arguments =>
    have hargs := arguments.valid covers valued hvalued.params labels k
    exact hargs.append (covers.call resolved hvalued k)
  | print library =>
    exact .op .const (.op .const (.single (.op (.call covers.prints))))

/-- The code of arguments pushes one value for each. -/
theorem ArgsCode.valid (covers : Covers Φ tag Γ) (valued : Γ.Valued) {args : List Node}
    {tys : List Ty} {s s' : State} {code : Code} (h : ArgsCode tag Γ args tys s code s')
    (hasValues : ∀ ty ∈ tys, ty.hasValue = true) (labels : List Bytes) (k : Nat) :
    CodeValid Φ labels code k (k + tys.length) := by
  cases h with
  | nil => exact .nil
  | @cons _ _ ty tys _ _ _ _ _ _ first commented others =>
    have hfirst := first.valid covers valued labels k
    rw [valueCount_of_hasValue (hasValues ty List.mem_cons_self)] at hfirst
    have hothers := others.valid covers valued
      (fun ty' hty' => hasValues ty' (List.mem_cons_of_mem _ hty')) labels (k + 1)
    rw [List.length_cons, show k + (tys.length + 1) = k + 1 + tys.length by omega]
    exact (commented.valid hfirst).append hothers

end

/-! ## Statements -/

theorem dropValue_valid {ty : Ty} {code : Code} {k : Nat}
    (valid : CodeValid Φ labels code k (k + valueCount ty)) :
    CodeValid Φ labels (dropValue ty code) k k := by
  unfold dropValue
  unfold valueCount at valid
  cases hvalue : ty.hasValue with
  | true =>
    rw [hvalue] at valid
    exact valid.append (.single (.op .drop))
  | false =>
    rw [hvalue] at valid
    exact valid

/-- A loop whose condition is tested in front of it and at its end. -/
theorem whileLoop_valid {num k : Nat} {test code again : Code}
    (htest : CodeValid Φ (breakLabel num :: labels) test 0 1)
    (hcode : CodeValid Φ (loopLabel num :: breakLabel num :: labels) code 0 0)
    (hagain : CodeValid Φ (loopLabel num :: breakLabel num :: labels) again 0 1) :
    InstrValid Φ labels (whileLoop num test code again) k k := by
  have hloop := (hcode.append hagain).append (.single (.op (.brIf List.mem_cons_self)))
  exact .block (htest.append
    (.op .eqz (.op (.brIf List.mem_cons_self) (.single (.loop hloop)))))

mutual

/-- The code of a statement leaves the stack as it found it. -/
theorem StmtCode.valid (covers : Covers Φ tag Γ) (valued : Γ.Valued) {result : Ty}
    (hresults : Φ.results = valueCount result)
    {loops : List Nat} {n : Node} {s s' : State} {code : Code}
    (h : StmtCode tag Γ result loops n s code s') {labels : List Bytes}
    (hlabels : ∀ num ∈ loops, breakLabel num ∈ labels) (k : Nat) :
    CodeValid Φ labels code k k := by
  cases h with
  | block statements => exact statements.valid covers valued hresults hlabels k
  | expression value commented =>
    exact dropValue_valid (commented.valid (value.valid covers valued labels k))
  | call isCall value => exact dropValue_valid (value.valid covers valued labels k)
  | null => exact .nil
  | ifThen condition commented whenTrue =>
    have htest := commented.valid (condition.valid covers valued labels k)
    have htrue := whenTrue.valid covers valued hresults hlabels 0
    exact htest.append (.single (.cond htrue .nil))
  | ifElse condition commented whenTrue whenFalse =>
    have htest := commented.valid (condition.valid covers valued labels k)
    have htrue := whenTrue.valid covers valued hresults hlabels 0
    have hfalse := whenFalse.valid covers valued hresults hlabels 0
    exact htest.append (.single (.cond htrue hfalse))
  | «while» condition commented repeated conditionAgain commentedAgain =>
    refine .single (whileLoop_valid ?_ ?_ ?_)
    · exact commented.valid (condition.valid covers valued _ 0)
    · refine repeated.valid covers valued hresults ?_ 0
      intro num hnum
      rcases List.mem_cons.mp hnum with rfl | hnum
      · exact List.mem_cons_of_mem _ List.mem_cons_self
      · exact List.mem_cons_of_mem _ (List.mem_cons_of_mem _ (hlabels num hnum))
    · exact commentedAgain.valid (conditionAgain.valid covers valued _ 0)
  | returnNothing isVoid =>
    have hzero : Φ.results = 0 := by
      rw [hresults, isVoid]
      rfl
    have hret : OpValid Φ labels .ret (k + Φ.results) k := .ret
    rw [hzero] at hret
    exact .single (.op hret)
  | returnValue hasResult valueCode commented =>
    have hvalue := commented.valid (valueCode.valid covers valued labels k)
    rw [← hresults] at hvalue
    exact hvalue.append (.single (.op .ret))
  | «break» => exact .single (.op (.br (hlabels _ List.mem_cons_self)))

theorem StmtsCode.valid (covers : Covers Φ tag Γ) (valued : Γ.Valued) {result : Ty}
    (hresults : Φ.results = valueCount result)
    {loops : List Nat} {ss : List Node} {s s' : State} {code : Code}
    (h : StmtsCode tag Γ result loops ss s code s') {labels : List Bytes}
    (hlabels : ∀ num ∈ loops, breakLabel num ∈ labels) (k : Nat) :
    CodeValid Φ labels code k k := by
  cases h with
  | nil => exact .nil
  | cons first others =>
    exact (first.valid covers valued hresults hlabels k).append
      (others.valid covers valued hresults hlabels k)

end

theorem Covers.declare (h : Covers Φ tag Γ) {name : Bytes} {ty : Ty}
    (declared : localName tag name ∈ Φ.locals) : Covers Φ tag (Γ.declare name ty) where
  locals v hv := by
    rcases List.mem_append.mp hv with hv | hv
    · exact h.locals v hv
    · rw [List.mem_singleton.mp hv]
      exact declared
  scratch := h.scratch
  globals := h.globals
  funcs := h.funcs
  library := h.library
  prints := h.prints

theorem kind_of_stmtCode {result : Ty} {loops : List Nat} {n : Node} {s s' : State} {code : Code}
    (h : StmtCode tag Γ result loops n s code s') : n.kind ≠ .variableDeclaration := by
  cases h with
  | call isCall _ =>
    rw [isCall]
    decide
  | _ => simp

theorem BodyCode.valid {result : Ty} (hresults : Φ.results = valueCount result) {Γ : Names} {ss : List Node} {s s' : State}
    {code : Code} (h : BodyCode tag result Γ ss s code s') (covers : Covers Φ tag Γ)
    (valued : Γ.Valued) (declared : ∀ v ∈ declaredBy ss, localName tag v.1 ∈ Φ.locals) :
    CodeValid Φ [] code 0 0 := by
  induction h with
  | nil => exact .nil
  | declaration isDeclaration binds _ ih =>
    rw [declaredBy_declaration isDeclaration binds] at declared
    exact ih (covers.declare (declared _ List.mem_cons_self))
      (valued.declare (Node.binding?_hasValue binds))
      (fun v hv => declared v (List.mem_cons_of_mem _ hv))
  | statement first _ ih =>
    rw [declaredBy_other (kind_of_stmtCode first)] at declared
    exact (first.valid covers valued hresults (by simp) 0).append
      (ih covers valued declared)

/-! ## The runtime library -/

section Library

variable (hprintc : (libraryName (utf8 "printc"), (⟨1, 0⟩ : Arity)) ∈ Φ.funcs)
  (hprints : (libraryName (utf8 "prints"), (⟨2, 0⟩ : Arity)) ∈ Φ.funcs)

include hprintc in
theorem printc_valid (k : Nat) :
    OpValid Φ labels (.call (libraryName (utf8 "printc"))) (k + 1) k :=
  .call hprintc

include hprints in
theorem prints_valid (k : Nat) :
    OpValid Φ labels (.call (libraryName (utf8 "prints"))) (k + 2) k :=
  .call hprints

include hprintc in
theorem printsFunc_valid (hlocals : Φ.locals = [utf8 "$start", utf8 "$length", utf8 "$end"]) :
    CodeValid Φ [] (printsFunc ⟨.initial, false⟩).body 0 0 := by
  unfold printsFunc
  repeat' first | exact printc_valid hprintc _ | constructor
  all_goals
    rw [hlocals]
    decide

include hprintc in
theorem printiFunc_valid (hlocals : Φ.locals = [utf8 "$x", utf8 "$div"]) :
    CodeValid Φ [] (printiFunc ⟨.initial, false⟩).body 0 0 := by
  unfold printiFunc
  repeat' first | exact printc_valid hprintc _ | constructor
  all_goals
    rw [hlocals]
    decide

include hprints in
theorem printbFunc_valid (yes no : Nat × Nat) (hlocals : Φ.locals = [utf8 "$b"]) :
    CodeValid Φ [] (printbFunc ⟨.initial, false⟩ yes no).body 0 0 := by
  unfold printbFunc
  repeat' first | exact prints_valid hprints _ | constructor
  all_goals
    rw [hlocals]
    decide

end Library

/-! ## Functions -/

theorem localName_injective {tag x y : Bytes} (h : localName tag x = localName tag y) : x = y :=
  List.append_cancel_left h

theorem globalName_injective {x y : Bytes} (h : globalName x = globalName y) : x = y :=
  List.append_cancel_left h

/-- The names of locals are apart from the scratch local, since a tag begins with a
capital letter. -/
theorem localName_ne_scratch (number : Nat) (name : Bytes) :
    localName (utf8 "L" ++ Bytes.ofNat number) name ≠ scratch := by
  unfold localName scratch
  intro h
  have hsecond : (utf8 "$" ++ (utf8 "L" ++ Bytes.ofNat number) ++ name)[1]? = some (byte 'L') := rfl
  rw [h] at hsecond
  exact absurd hsecond (by decide)

theorem funcOf_nodup {isEntry : Bool} {name tag : Bytes} {number : Nat}
    {params declared : List (Bytes × Ty)} {result : Ty} {code : Code}
    (isTag : tag = utf8 "L" ++ Bytes.ofNat number)
    (distinct : ((params ++ declared).map Prod.fst).Nodup) :
    ((funcOf isEntry name tag params declared result code).params ++
      (funcOf isEntry name tag params declared result code).locals).Nodup := by
  have hmap : ((params ++ declared).map fun v => localName tag v.1).Nodup := by
    have hnames : (((params ++ declared).map Prod.fst).map (localName tag)).Nodup :=
      distinct.map fun _ _ heq => localName_injective heq
    rwa [List.map_map] at hnames
  have hall : (scratch :: (params ++ declared).map fun v => localName tag v.1).Nodup := by
    refine List.nodup_cons.mpr ⟨?_, hmap⟩
    intro hmem
    obtain ⟨v, -, hv⟩ := List.mem_map.mp hmem
    rw [isTag] at hv
    exact localName_ne_scratch number v.1 hv
  cases isEntry with
  | true => simpa [funcOf] using hall
  | false =>
    simp only [funcOf, Bool.false_eq_true, if_false, List.nil_append]
    rw [List.map_append] at hall
    exact (List.perm_middle.nodup_iff).mpr hall

theorem result_of_type? {kind : Kind} {result : Ty} (isResult : kind.type? = some result) :
    (decide (result ≠ .void)).toNat = valueCount result := by
  rcases Kind.hasValue_or_void_of_type? isResult with hvalue | rfl
  · rw [valueCount_of_hasValue hvalue]
    cases result <;> simp [Ty.hasValue] at hvalue ⊢
  · rfl

/-- A module function validates among the globals and functions of its module. -/
theorem FunctionCode.valid {globals : List (Bytes × Ty)} {funcs : List (Bytes × Signature)}
    {d : Node} {name : Bytes} {sig : Signature} {f : Wat.Func Op} {s s' : State}
    (h : FunctionCode globals funcs d name sig f s s') (covers : CoversGlobals Φ globals funcs)
    (varTypes : ∀ v ∈ globals, v.2.hasValue = true) (funcTypes : ∀ v ∈ funcs, v.2.Valued)
    (hlocals : Φ.locals = f.params ++ f.locals) (hresults : Φ.results = f.result.toNat) :
    (f.params ++ f.locals).Nodup ∧ CodeValid Φ [] f.body 0 f.result.toNat := by
  cases h with
  | @intro kind _ _ _ _ _ _ _ _ _ _ _ ps _ _ _ ss result params _ tag _ _ code _ isResult binds
      distinct isTag body _ _ _ =>
    refine ⟨funcOf_nodup isTag distinct, ?_⟩
    have hcount : Φ.results = valueCount result := hresults.trans (result_of_type? isResult)
    have hmem : ∀ v ∈ params ++ declaredBy ss, localName tag v.1 ∈ Φ.locals := by
      intro v hv
      rw [hlocals]
      by_cases isEntry : kind = .entryPointDeclaration
      · simp only [funcOf, isEntry, decide_true, if_true, List.nil_append]
        exact List.mem_cons_of_mem _ (List.mem_map.mpr ⟨v, hv, rfl⟩)
      · simp only [funcOf, isEntry, decide_false, Bool.false_eq_true, if_false, List.nil_append]
        rcases List.mem_append.mp hv with hv | hv
        · exact List.mem_append_left _ (List.mem_map.mpr ⟨v, hv, rfl⟩)
        · exact List.mem_append_right _ (List.mem_cons_of_mem _ (List.mem_map.mpr ⟨v, hv, rfl⟩))
    have hcovers : Covers Φ tag ⟨params, globals, funcs⟩ := by
      refine { covers with locals := fun v hv => hmem v (List.mem_append_left _ hv), scratch := ?_ }
      rw [hlocals]
      exact List.mem_append_right _ List.mem_cons_self
    have hvalued : Names.Valued ⟨params, globals, funcs⟩ :=
      ⟨bindings_hasValue binds, varTypes, funcTypes⟩
    have hbody := body.valid hcount hcovers hvalued
      (fun v hv => hmem v (List.mem_append_right _ hv))
    by_cases isVoid : result = .void
    · subst isVoid
      exact hbody
    · simp only [funcOf, isVoid, ne_eq, not_false_eq_true, if_true]
      exact hbody.append (.single (.op .unreachable))

/-! ## Programs -/

section Decls

variable {globals vs : List (Bytes × Ty)} {funcs fs : List (Bytes × Signature)} {ds : List Node}
  {parts : Parts} {s s' : State}

/-- Every function of a program has a declaration. -/
theorem DeclsCode.decl_of_func (h : DeclsCode globals funcs ds vs fs parts s s')
    {f : Wat.Func Op} (hf : f ∈ parts.funcs) :
    ∃ d ∈ ds, ∃ name sig s s', FunctionCode globals funcs d name sig f s s' ∧
      (d.kind = .entryPointDeclaration ∧ sig.result = .void ∨
        d.kind = .functionDeclaration ∧ (name, sig) ∈ fs) := by
  induction h with
  | nil => cases hf
  | @entryPoint d _ name sig _ _ _ _ _ _ _ isEntry isVoid code _ ih =>
    rcases List.mem_cons.mp hf with rfl | hf
    · exact ⟨d, List.mem_cons_self, name, sig, _, _, code, .inl ⟨isEntry, isVoid⟩⟩
    · obtain ⟨d', hd', rest⟩ := ih hf
      exact ⟨d', List.mem_cons_of_mem _ hd', rest⟩
  | @function d _ name sig _ _ _ _ _ _ _ isFunction code _ ih =>
    rcases List.mem_cons.mp hf with rfl | hf
    · exact ⟨d, List.mem_cons_self, name, sig, _, _, code, .inr ⟨isFunction, List.mem_cons_self⟩⟩
    · obtain ⟨d', hd', name', sig', s, s', code', hkind⟩ := ih hf
      refine ⟨d', List.mem_cons_of_mem _ hd', name', sig', s, s', code', ?_⟩
      rcases hkind with hentry | ⟨hkind, hmem⟩
      · exact .inl hentry
      · exact .inr ⟨hkind, List.mem_cons_of_mem _ hmem⟩
  | global _ _ _ ih =>
    obtain ⟨d', hd', rest⟩ := ih hf
    exact ⟨d', List.mem_cons_of_mem _ hd', rest⟩

theorem DeclsCode.globals_eq (h : DeclsCode globals funcs ds vs fs parts s s') :
    parts.globals = vs.map fun v => globalName v.1 := by
  induction h with
  | nil => rfl
  | entryPoint _ _ _ _ ih => exact ih
  | function _ _ _ ih => exact ih
  | global _ _ _ ih => rw [List.map_cons, ih]

/-- What a function of a module looks like from outside. -/
theorem FunctionCode.head {d : Node} {name : Bytes} {sig : Signature} {f : Wat.Func Op}
    (h : FunctionCode globals funcs d name sig f s s') :
    f.result.toNat = valueCount sig.result ∧ f.result = decide (sig.result ≠ .void) ∧
      (d.kind = .entryPointDeclaration → f.name = entryName ∧ f.params = []) ∧
      (d.kind ≠ .entryPointDeclaration →
        f.name = globalName name ∧ f.params.length = sig.params.length) := by
  cases h with
  | intro isResult _ _ _ _ _ _ _ =>
    refine ⟨result_of_type? isResult, rfl, ?_, ?_⟩
    · intro isEntry
      simp only at isEntry
      simp [funcOf, isEntry]
    · intro isFunction
      simp only at isFunction
      simp [funcOf, isFunction]

/-- Every declared function is a function of the module. -/
theorem DeclsCode.func_of_decl (h : DeclsCode globals funcs ds vs fs parts s s') :
    ∀ v ∈ fs, ∃ f ∈ parts.funcs, f.name = globalName v.1 ∧
      f.params.length = v.2.params.length ∧ f.result.toNat = valueCount v.2.result := by
  induction h with
  | nil => simp
  | entryPoint _ _ _ _ ih =>
    intro v hv
    obtain ⟨f, hf, rest⟩ := ih v hv
    exact ⟨f, List.mem_cons_of_mem _ hf, rest⟩
  | @function d _ name sig f _ _ _ _ _ _ isFunction code _ ih =>
    intro v hv
    rcases List.mem_cons.mp hv with rfl | hv
    · obtain ⟨hresult, -, -, hhead⟩ := code.head
      obtain ⟨hname, hparams⟩ := hhead (by simp [isFunction])
      exact ⟨f, List.mem_cons_self, hname, hparams, hresult⟩
    · obtain ⟨f, hf, rest⟩ := ih v hv
      exact ⟨f, List.mem_cons_of_mem _ hf, rest⟩
  | global _ _ _ ih => exact ih

/-- The names of the functions of a program: the entry point's or a user's. -/
theorem DeclsCode.name_cases (h : DeclsCode globals funcs ds vs fs parts s s') {f : Wat.Func Op}
    (hf : f ∈ parts.funcs) :
    (f.name = entryName ∧ ∃ d ∈ ds, d.kind = .entryPointDeclaration) ∨
      ∃ v ∈ fs, f.name = globalName v.1 := by
  obtain ⟨d, hd, name, sig, s, s', code, hkind⟩ := h.decl_of_func hf
  obtain ⟨-, -, hentry, hfunction⟩ := code.head
  rcases hkind with ⟨hkind, -⟩ | ⟨hkind, hmem⟩
  · exact .inl ⟨(hentry hkind).1, d, hd, hkind⟩
  · exact .inr ⟨(name, sig), hmem, (hfunction (by simp [hkind])).1⟩

theorem globalName_ne_entryName (name : Bytes) : globalName name ≠ entryName := by
  intro h
  have hsecond : (globalName name)[1]? = some (byte 'G') := rfl
  rw [h] at hsecond
  exact absurd hsecond (by decide)

/-- The functions of a program have distinct names, if it has one entry point at most. -/
theorem DeclsCode.names_nodup (h : DeclsCode globals funcs ds vs fs parts s s')
    (distinct : (fs.map Prod.fst).Nodup)
    (entries : entryPoints ds ≤ 1) :
    (parts.funcs.map (·.name)).Nodup := by
  induction h with
  | nil => simp
  | entryPoint isEntry isVoid code others ih =>
    rw [entryPoints_entryPoint isEntry] at entries
    refine List.nodup_cons.mpr ⟨?_, ih distinct (by omega)⟩
    intro hmem
    obtain ⟨f, hf, heq⟩ := List.mem_map.mp hmem
    have hentry := heq.trans (code.head.2.2.1 isEntry).1
    rcases others.name_cases hf with ⟨-, d, hd, hkind⟩ | ⟨v, -, hv⟩
    · have := entryPoints_pos hd hkind
      omega
    · exact globalName_ne_entryName v.1 (hv.symm.trans hentry)
  | @function d rest name sig _ _ _ _ _ _ _ isFunction code others ih =>
    rw [entryPoints_other (by simp [isFunction])] at entries
    rw [List.map_cons, List.nodup_cons] at distinct
    refine List.nodup_cons.mpr ⟨?_, ih distinct.2 entries⟩
    intro hmem
    obtain ⟨f, hf, heq⟩ := List.mem_map.mp hmem
    have hglobal := heq.trans (code.head.2.2.2 (by simp [isFunction])).1
    rcases others.name_cases hf with ⟨hname, -⟩ | ⟨v, hmem, hv⟩
    · exact globalName_ne_entryName name (hglobal.symm.trans hname)
    · have hsame : v.1 = name := globalName_injective (hv.symm.trans hglobal)
      exact distinct.1 (List.mem_map.mpr ⟨v, hmem, hsame⟩)
  | global isDeclaration _ _ ih =>
    rw [entryPoints_other (by simp [isDeclaration])] at entries
    exact ih distinct entries

/-- The entry point takes and returns nothing. -/
theorem DeclsCode.entry (h : DeclsCode globals funcs ds vs fs parts s s')
    (entries : 0 < entryPoints ds) :
    parts.hasEntry = true ∧
      ∃ f ∈ parts.funcs, f.name = entryName ∧ f.params = [] ∧ f.result = false := by
  induction h with
  | nil => cases entries
  | @entryPoint d rest name sig f _ _ _ _ _ _ isEntry isVoid code others ih =>
    obtain ⟨-, hresult, hhead, -⟩ := code.head
    obtain ⟨hname, hparams⟩ := hhead isEntry
    refine ⟨rfl, f, List.mem_cons_self, hname, hparams, ?_⟩
    rw [hresult, isVoid]
    rfl
  | function isFunction code others ih =>
    rw [entryPoints_other (by simp [isFunction])] at entries
    obtain ⟨hentry, f, hf, rest⟩ := ih entries
    exact ⟨hentry, f, List.mem_cons_of_mem _ hf, rest⟩
  | global isDeclaration _ _ ih =>
    rw [entryPoints_other (by simp [isDeclaration])] at entries
    exact ih entries

end Decls

/-! ## Modules -/

/-- The functions of the runtime library with what they pop and push. -/
def libraryArities : List (Bytes × Arity) :=
  [(libraryName (utf8 "halt"), ⟨0, 0⟩), (libraryName (utf8 "getchar"), ⟨0, 1⟩),
    (libraryName (utf8 "printc"), ⟨1, 0⟩), (libraryName (utf8 "prints"), ⟨2, 0⟩),
    (libraryName (utf8 "printi"), ⟨1, 0⟩), (libraryName (utf8 "printb"), ⟨1, 0⟩)]

theorem library_valued {v : Bytes × Signature} (hv : v ∈ Scope.builtinFunctions)
    (valued : v.2.Valued) :
    (libraryName v.1, ⟨v.2.params.length, valueCount v.2.result⟩) ∈ libraryArities := by
  simp only [Scope.builtinFunctions, List.mem_cons, List.not_mem_nil, or_false] at hv
  rcases hv with rfl | rfl | rfl | rfl | rfl | rfl
  · decide
  · decide
  · decide
  · decide
  · decide
  · exact absurd (valued.params .string List.mem_cons_self) (by decide)

theorem libraryName_ne_globalName (x y : Bytes) : libraryName x ≠ globalName y := by
  intro h
  have hsecond : (libraryName x)[1]? = some (byte 'D') := rfl
  rw [h] at hsecond
  exact absurd hsecond (show ¬ some (byte 'G') = some (byte 'D') by decide)

theorem libraryName_ne_entryName (name : Bytes) : libraryName name ≠ entryName := by
  intro h
  have hsecond : (libraryName name)[1]? = some (byte 'D') := rfl
  rw [h] at hsecond
  exact absurd hsecond (by decide)

section Module

variable {globals : List (Bytes × Ty)} {funcs : List (Bytes × Signature)} {ds : List Node}
  {parts : Parts} {s : State}

/-- The functions of a module are those of the library and of the program. -/
theorem moduleWith_arities (parts : Parts) (s : State) :
    (moduleWith parts s).arities = libraryArities ++
      parts.funcs.map fun f => (f.name, ⟨f.params.length, f.result.toNat⟩) := by
  unfold Wat.Module.arities moduleWith
  rw [List.map_append, ← List.append_assoc]
  rfl

theorem coversGlobals_of_declsCode (code : DeclsCode globals funcs ds globals funcs parts .library s)
    (f : Wat.Func Op) : CoversGlobals ((moduleWith parts s).scoping f) globals funcs where
  globals v hv := by
    show _ ∈ parts.globals
    rw [code.globals_eq]
    exact List.mem_map.mpr ⟨v, hv, rfl⟩
  funcs v hv := by
    obtain ⟨g, hg, hname, hparams, hresult⟩ := code.func_of_decl v hv
    show _ ∈ (moduleWith parts s).arities
    rw [moduleWith_arities]
    refine List.mem_append_right _ (List.mem_map.mpr ⟨g, hg, ?_⟩)
    rw [hname, hparams, hresult]
  library v hv valued := by
    show _ ∈ (moduleWith parts s).arities
    rw [moduleWith_arities]
    exact List.mem_append_left _ (library_valued hv valued)
  prints := by
    show _ ∈ (moduleWith parts s).arities
    rw [moduleWith_arities]
    exact List.mem_append_left _ (by decide)

theorem funcNames_nodup (code : DeclsCode globals funcs ds globals funcs parts .library s)
    (distinct : (funcs.map Prod.fst).Nodup) (entries : entryPoints ds ≤ 1) :
    ((libraryImports ⟨.initial, false⟩).map (·.name) ++
      (library ++ parts.funcs).map (·.name)).Nodup := by
  have hlibrary : (libraryImports ⟨.initial, false⟩).map (·.name) ++ library.map (·.name) =
      libraryArities.map Prod.fst := rfl
  rw [List.map_append, ← List.append_assoc, hlibrary]
  refine List.nodup_append.mpr ⟨by decide, code.names_nodup distinct entries, ?_⟩
  intro x hx y hy heq
  obtain ⟨name, rfl⟩ : ∃ name, x = libraryName name := by
    obtain ⟨v, hv, rfl⟩ := List.mem_map.mp hx
    simp only [libraryArities, List.mem_cons, List.not_mem_nil, or_false] at hv
    rcases hv with rfl | rfl | rfl | rfl | rfl | rfl <;> exact ⟨_, rfl⟩
  obtain ⟨f, hf, rfl⟩ := List.mem_map.mp hy
  rcases code.name_cases hf with ⟨hname, -⟩ | ⟨v, -, hname⟩
  · exact libraryName_ne_entryName name (heq.trans hname)
  · exact libraryName_ne_globalName name v.1 (heq.trans hname)

/-- The library validates in every module. -/
theorem library_valid {m : Wat.Module Op} {f : Wat.Func Op}
    (covers : CoversGlobals (m.scoping f) globals funcs) (hf : f ∈ library) :
    (f.params ++ f.locals).Nodup ∧ CodeValid (m.scoping f) [] f.body 0 f.result.toNat := by
  have hprintc := covers.library (utf8 "printc", ⟨[.int], .void⟩) (by decide)
    ⟨by decide, .inr rfl⟩
  have hprints := covers.prints
  simp only [library, List.mem_cons, List.not_mem_nil, or_false] at hf
  rcases hf with rfl | rfl | rfl
  · exact ⟨by decide, printsFunc_valid hprintc rfl⟩
  · exact ⟨by decide, printiFunc_valid hprintc rfl⟩
  · exact ⟨by decide, printbFunc_valid hprints _ _ rfl⟩

end Module

/-- The module of a program with one entry point validates. -/
theorem ModuleCode.valid {root : Node} {m : Wat.Module Op} {s : State} (h : ModuleCode root m s)
    (oneEntry : entryPoints root.children = 1) : m.Valid := by
  cases h with
  | @intro attr loc note ds globals funcs parts s varNames funcNames varTypes funcTypes code =>
    have hfunc : ∀ f ∈ library ++ parts.funcs, (f.params ++ f.locals).Nodup ∧
        CodeValid ((moduleWith parts s).scoping f) [] f.body 0 f.result.toNat := by
      intro f hf
      have covers := coversGlobals_of_declsCode code f
      rcases List.mem_append.mp hf with hf | hf
      · exact library_valid covers hf
      · obtain ⟨d, -, name, sig, s, s', hcode, -⟩ := code.decl_of_func hf
        exact hcode.valid covers varTypes funcTypes rfl rfl
    have hone : entryPoints ds = 1 := oneEntry
    obtain ⟨hentry, f, hf, hname, hparams, hresult⟩ := code.entry (by omega)
    constructor
    · exact funcNames_nodup code funcNames (by omega)
    · have hnames : ((globals.map Prod.fst).map globalName).Nodup :=
        varNames.map fun _ _ heq => globalName_injective heq
      show parts.globals.Nodup
      rw [code.globals_eq]
      rwa [List.map_map] at hnames
    · exact fun f hf => (hfunc f hf).1
    · exact fun f hf => (hfunc f hf).2
    · refine ⟨f, List.mem_append_right _ hf, ?_, hparams, hresult⟩
      rw [hname]
      simp [moduleWith, hentry]

/-- Every program that passed the checker and has one entry point is lowered to a
module that validates. -/
theorem program_valid {root : Node} {checked : Check.CheckedProgram}
    (accepted : Check.checkProgram root = .ok checked)
    (oneEntry : entryPoints root.children = 1)
    (debug : Bool) :
    ∃ m, program ⟨checked.scopes, debug⟩ checked.tree = .ok m ∧ m.Valid := by
  obtain ⟨m, s, hmodule, hcode⟩ := moduleCode_of_checkProgram accepted debug
  exact ⟨m, program_ok hmodule, hcode.valid oneEntry⟩

/-- The module of the sample program validates. -/
theorem program_valid_sample :
    ∃ checked, Check.checkProgram sampleProgram = .ok checked ∧
      entryPoints sampleProgram.children = 1 ∧
      ∃ m, program ⟨checked.scopes, true⟩ checked.tree = .ok m ∧ m.Valid := by
  obtain ⟨checked, accepted⟩ := sampleProgram_accepted
  have oneEntry : entryPoints sampleProgram.children = 1 := by decide
  exact ⟨checked, accepted, oneEntry, program_valid accepted oneEntry true⟩

end TreeWat.Lower
