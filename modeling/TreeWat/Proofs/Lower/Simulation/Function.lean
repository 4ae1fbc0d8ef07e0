import TreeWat.Proofs.Lower.Simulation.Statement
set_option autoImplicit false

/-!
# Lower: functions and their code do the same

The locals of a module function at its start are the parameters and variables of the
source function, all of the latter at zero.  A function with a result returns on all
paths, so that neither side comes to the end of its body.
-/

namespace TreeWat.Lower

open Source (Value Scene Interpreter Exit)
open Wat (Code Op Instr Machine Flow execCode)

/-- Related ends of a body. -/
inductive EndRel (globals : List (Bytes × Ty)) (result : Ty) :
    Exit × Scene → Flow × Wat.Config → Prop where
  | next {σ locals store} (rel : StoreRel globals σ.store store) :
      EndRel globals result (.next, σ) (.next, ⟨[], locals, store⟩)
  | return {v ws σ locals store} (holds : Holds result v ws)
      (rel : StoreRel globals σ.store store) :
      EndRel globals result (.return v, σ) (.ret, ⟨ws, locals, store⟩)

variable {tag : Bytes} {Γ : Names} {pending : List Bytes} {σ : Scene}
  {locals : Bytes → Option Word} {store : Store Word} {I : Interpreter} {M : Machine}
  {data : List Wat.Data} {result : Ty} {globals : List (Bytes × Ty)}
  {funcs : List (Bytes × Signature)}

/-! ## Bodies -/

/-- A body and its code do the same. -/
theorem BodyCode.simulates {Γ : Names} {ss : List Node} {s s' : State} {code : Code}
    (h : BodyCode tag result Γ ss s code s') (linked : Linked Γ.globals Γ.funcs data I M)
    (hdata : s'.literals.data ⊆ data) {σ : Scene}
    (rel : SceneRel tag Γ ((declaredBy ss).map Prod.fst) σ locals store) :
    Run.Match (EndRel Γ.globals result) (Source.execAll I ss σ)
      (execCode M code ⟨[], locals, store⟩) := by
  induction h generalizing σ locals store with
  | nil =>
    rw [Source.execAll]
    exact match_next (.next rel.global)
  | @declaration Γ n rest name ty s code s' isDeclaration binds others ih =>
    rw [declaredBy_declaration isDeclaration binds] at rel
    have hdeclare : Source.exec I n σ =
        pure (.next, { σ with locals := assign σ.locals name (.initial ty) }) := by
      rcases n with ⟨kind, attr, loc, note, children⟩
      cases isDeclaration
      rw [Source.exec, binds]
    rw [Source.execAll, hdeclare, Run.done_bind]
    exact ih linked hdata (rel.declare (Node.binding?_hasValue binds))
  | statement first others ih =>
    rw [declaredBy_other (kind_of_stmtCode first)] at rel
    rw [Source.execAll, Wat.execCode_append]
    refine (first.simulates linked (fun _ hd => hdata (others.data_subset hd)) rel).bind ?_
    rintro _ _ (rel₁ | rel₁ | ⟨holds, rel₁⟩)
    · exact ih linked hdata rel₁
    · exact .pure (.return holds rel₁.global)

/-! ## How control leaves a statement -/

section Exits

variable {scopes : Scopes}

theorem execAll_not_next {ss : List Node}
    (each : ∀ n ∈ ss, ∀ {e}, Check.exitOf scopes n = .ok e → e ≠ .doesNotAlwaysReturn →
      ∀ σ σ', (Source.exec I n σ).res ≠ .ok (.next, σ'))
    {e : Check.Exit} (exit : Check.exitOfAll scopes ss = .ok e)
    (decisive : e ≠ .doesNotAlwaysReturn) (σ σ' : Scene) :
    (Source.execAll I ss σ).res ≠ .ok (.next, σ') := by
  induction ss generalizing σ with
  | nil =>
    cases exit
    exact absurd rfl decisive
  | cons n rest ih =>
    intro hend
    rw [Source.execAll, Run.bind_res_eq_ok] at hend
    obtain ⟨⟨exit₁, σ₁⟩, hfirst, hrest⟩ := hend
    rw [Check.exitOfAll] at exit
    cases exit₁ with
    | «break» => cases hrest
    | «return» v => cases hrest
    | next =>
      cases hexit : Check.exitOf scopes n with
      | error err =>
        rw [hexit] at exit
        cases exit
      | ok e₁ =>
        rw [hexit] at exit
        by_cases hgoesOn : e₁ = .doesNotAlwaysReturn
        · subst hgoesOn
          exact ih (fun m hm => each m (List.mem_cons_of_mem _ hm)) exit σ₁ hrest
        · exact each n List.mem_cons_self hexit hgoesOn σ σ₁ hfirst

/-- If a conditional is decisive, both arms are, in the same way. -/
theorem exitOf_arms {arm₁ arm₂ : Node} {e : Check.Exit}
    (exit : (match Check.exitOf scopes arm₁ with
      | .error e => .error e
      | .ok e₁ =>
        match Check.exitOf scopes arm₂ with
        | .error e => .error e
        | .ok e₂ => if e₁ = e₂ then .ok e₁ else .ok .doesNotAlwaysReturn) = Except.ok e)
    (decisive : e ≠ .doesNotAlwaysReturn) :
    Check.exitOf scopes arm₁ = .ok e ∧ Check.exitOf scopes arm₂ = .ok e := by
  cases h₁ : Check.exitOf scopes arm₁ with
  | error err =>
    rw [h₁] at exit
    cases exit
  | ok e₁ =>
    cases h₂ : Check.exitOf scopes arm₂ with
    | error err =>
      rw [h₁, h₂] at exit
      cases exit
    | ok e₂ =>
      rw [h₁, h₂] at exit
      by_cases heq : e₁ = e₂
      · simp only [heq, if_true] at exit
        cases exit
        exact ⟨by rw [heq], rfl⟩
      · simp only [heq, if_false] at exit
        cases exit
        exact absurd rfl decisive

/-- A call that yields a value was made. -/
theorem call_of_eval {attr : Bytes} {loc : Location} {note : Option Annotation}
    {children : List Node} {p : Value × Scene}
    (h : (Source.eval I ⟨.functionInvocation, attr, loc, note, children⟩ σ).res = .ok p) :
    ∃ callee args vs σ₁ q, children = [callee, args] ∧
      (I.call callee.attr vs (Scene.store σ₁)).res = .ok q := by
  unfold Source.eval at h
  dsimp only at h
  split at h
  · rw [Run.bind_res_eq_ok] at h
    obtain ⟨⟨vs, σ₁⟩, -, h⟩ := h
    rw [Run.bind_res_eq_ok] at h
    obtain ⟨q, hcall, -⟩ := h
    exact ⟨_, _, vs, σ₁, q, rfl, hcall⟩
  · cases h

/-- A statement that is classified as decisive does not end in the usual way. -/
theorem exec_not_next
    (halts : ∀ name, Check.halts scopes name = true → ∀ args source p,
      (I.call name args source).res ≠ .ok p) (n : Node) :
    ∀ {e}, Check.exitOf scopes n = .ok e → e ≠ .doesNotAlwaysReturn →
      ∀ σ σ', (Source.exec I n σ).res ≠ .ok (.next, σ') := by
  induction n using Node.induction with
  | step n ih =>
    intro e exit decisive σ σ'
    have child : ∀ {m : Node}, m ∈ n.children → m ∈ n.descendants := Node.mem_descendants_of_child
    rcases n with ⟨kind, attr, loc, note, children⟩
    cases kind with
    | block =>
      rw [Check.exitOf] at exit
      rw [Source.exec]
      exact execAll_not_next (fun m hm => ih m (child hm)) exit decisive σ σ'
    | «return» =>
      intro hend
      rcases children with _ | ⟨value, _ | _⟩
      case cons.nil =>
        simp only [Source.exec, Run.bind_res_eq_ok] at hend
        obtain ⟨p, -, hp⟩ := hend
        cases hp
      all_goals
        simp only [Source.exec] at hend
        cases hend
    | «break» =>
      intro hend
      simp only [Source.exec] at hend
      cases hend
    | ifElse =>
      intro hend
      rcases children with _ | ⟨cond, _ | ⟨arm₁, _ | ⟨arm₂, _ | _⟩⟩⟩
      case cons.cons.cons.nil =>
        simp only [Source.exec, Run.bind_res_eq_ok] at hend
        obtain ⟨⟨b, σ₁⟩, -, hend⟩ := hend
        simp only [Check.exitOf] at exit
        obtain ⟨hexit₁, hexit₂⟩ := exitOf_arms exit decisive
        cases b with
        | true => exact ih arm₁ (child (by simp)) hexit₁ decisive σ₁ σ' hend
        | false => exact ih arm₂ (child (by simp)) hexit₂ decisive σ₁ σ' hend
      all_goals
        simp only [Source.exec] at hend
        cases hend
    | functionInvocation =>
      intro hend
      simp only [Source.exec, Run.bind_res_eq_ok] at hend
      obtain ⟨p, heval, -⟩ := hend
      obtain ⟨callee, args, vs, σ₁, q, rfl, hcall⟩ := call_of_eval heval
      simp only [Check.exitOf] at exit
      by_cases hhalts : Check.halts scopes callee.attr = true
      · exact halts callee.attr hhalts vs σ₁.store q hcall
      · rw [if_neg hhalts] at exit
        cases exit
        exact decisive rfl
    | _ =>
      simp only [Check.exitOf] at exit
      cases exit
      exact absurd rfl decisive

end Exits

/-! ## Arguments and locals at the start -/

section Start

variable {params declared : List (Bytes × Ty)} {args : List Value} {ws : List Word} {x : Bytes}

/-- Parameters hold their arguments on both sides. -/
theorem lookup_params (tag : Bytes) (holds : HoldAll (params.map Prod.snd) args ws) {ty : Ty}
    (hx : params.lookup x = some ty) :
    ∃ v w, ((params.map Prod.fst).zip args).lookup x = some v ∧ Holds ty v [w] ∧
      ((params.map fun v => localName tag v.1).zip ws).lookup (localName tag x) = some w := by
  induction params generalizing args ws with
  | nil => cases hx
  | cons p rest ih =>
    obtain ⟨y, ty'⟩ := p
    cases holds with
    | @cons _ _ v vs w ws first others =>
      by_cases hxy : x = y
      · subst hxy
        simp only [List.lookup_cons_self, Option.some.injEq] at hx
        subst hx
        exact ⟨v, w, by simp, first, by simp⟩
      · have hnames : localName tag x ≠ localName tag y := fun heq => hxy (localName_injective heq)
        rw [List.lookup_cons, beq_false_of_ne hxy] at hx
        obtain ⟨v', w', hv, hholds, hw⟩ := ih others hx
        refine ⟨v', w', ?_, hholds, ?_⟩
        · rw [List.map_cons, List.zip_cons_cons, List.lookup_cons, beq_false_of_ne hxy]
          exact hv
        · rw [List.map_cons, List.zip_cons_cons, List.lookup_cons, beq_false_of_ne hnames]
          exact hw

theorem lookup_zip_none {α : Type} {keys : List Bytes} {vs : List α} {key : Bytes}
    (h : key ∉ keys) : (keys.zip vs).lookup key = none := by
  rw [lookup_eq_none_iff_not_mem]
  intro hmem
  obtain ⟨⟨k, v⟩, hkv, rfl⟩ := List.mem_map.mp hmem
  exact h (List.of_mem_zip hkv).1

theorem lookup_zeros (hx : x ∈ declared.map Prod.fst) :
    ((declared.map fun v => localName tag v.1).map (·, (0 : Word))).lookup (localName tag x) =
      some 0 := by
  induction declared with
  | nil => cases hx
  | cons p rest ih =>
    obtain ⟨y, ty⟩ := p
    by_cases hxy : x = y
    · subst hxy
      simp
    · have hnames : localName tag x ≠ localName tag y := fun heq => hxy (localName_injective heq)
      rw [List.map_cons, List.map_cons, List.lookup_cons, beq_false_of_ne hnames]
      exact ih ((List.mem_cons.mp hx).resolve_left hxy)

theorem zip_map_zero (keys : List Bytes) :
    keys.zip (keys.map fun _ => (0 : Word)) = keys.map (·, 0) := by
  induction keys with
  | nil => rfl
  | cons key rest ih => rw [List.map_cons, List.zip_cons_cons, ih, List.map_cons]

/-- The numbers in the parameters of a module function at its start; those of an entry
point are zero. -/
def startValues (isEntry : Bool) (params : List (Bytes × Ty)) (ws : List Word) : List Word :=
  if isEntry then params.map fun _ => 0 else ws

variable {isEntry : Bool} {name : Bytes} {code : Code}

/-- A local at the start is a parameter or else a variable at zero. -/
theorem funcOf_bound_localName (apart : ∀ x, localName tag x ≠ scratch) (x : Bytes) :
    (funcOf isEntry name tag params declared result code).bound ws (localName tag x) =
      (((params.map fun v => localName tag v.1).zip (startValues isEntry params ws)).lookup
        (localName tag x)).or
      (((declared.map fun v => localName tag v.1).map (·, 0)).lookup (localName tag x)) := by
  unfold Wat.Func.bound
  cases isEntry with
  | true =>
    have hzeros := zip_map_zero (params.map fun v => localName tag v.1)
    rw [List.map_map] at hzeros
    simp only [funcOf, startValues, if_true, List.zip_nil_left, List.nil_append, List.map_cons,
      List.lookup_cons, beq_false_of_ne (apart x), List.map_append, List.lookup_append]
    congr 2
    exact hzeros.symm
  | false =>
    simp only [funcOf, startValues, Bool.false_eq_true, if_false, List.nil_append, List.map_cons,
      List.lookup_append, List.lookup_cons, beq_false_of_ne (apart x)]

theorem funcOf_bound_scratch :
    ∃ w, (funcOf isEntry name tag params declared result code).bound ws scratch = some w := by
  unfold Wat.Func.bound
  rw [List.lookup_append, funcOf, List.map_cons, List.lookup_cons_self]
  cases List.lookup scratch _ with
  | none => exact ⟨0, rfl⟩
  | some w => exact ⟨w, rfl⟩

/-- Related arguments make related states at the start of a function. -/
theorem SceneRel.start (apart : ∀ x, localName tag x ≠ scratch)
    (distinct : ((params ++ declared).map Prod.fst).Nodup)
    (holds : HoldAll (params.map Prod.snd) args (startValues isEntry params ws))
    {source : Store Value} (global : StoreRel globals source store) :
    SceneRel tag ⟨params, globals, funcs⟩ (declared.map Prod.fst)
      ⟨fun x => ((params.map Prod.fst).zip args).lookup x, source⟩
      ((funcOf isEntry name tag params declared result code).bound ws) store where
  apart := apart
  declared {x ty} hx := by
    obtain ⟨v, w, hv, hholds, hw⟩ := lookup_params tag holds hx
    refine ⟨v, w, hv, hholds, ?_⟩
    rw [funcOf_bound_localName apart, hw]
    rfl
  others {x} hx := lookup_zip_none (lookup_eq_none_iff_not_mem.mp hx)
  distinct := by
    rw [List.map_append] at distinct
    exact (List.nodup_append.mp distinct).2.1
  fresh {x} hx := by
    have hnew : x ∉ params.map Prod.fst := by
      rw [List.map_append] at distinct
      intro hmem
      exact (List.nodup_append.mp distinct).2.2 x hmem x hx rfl
    have hlocal : localName tag x ∉ params.map fun v => localName tag v.1 := by
      intro hmem
      obtain ⟨v, hv, heq⟩ := List.mem_map.mp hmem
      exact hnew (List.mem_map.mpr ⟨v, hv, localName_injective heq⟩)
    refine ⟨lookup_eq_none_iff_not_mem.mpr hnew, ?_⟩
    rw [funcOf_bound_localName apart, lookup_zip_none hlocal, Option.none_or, lookup_zeros hx]
  spare := funcOf_bound_scratch
  global := global

end Start

/-! ## Functions -/

/-- A function and its code end alike. -/
theorem EndRel.finish {resultNode : Node} (isResult : resultNode.kind.type? = some result)
    {isEntry : Bool} {name : Bytes} {params declared : List (Bytes × Ty)} {code : Code}
    {p : Exit × Scene} {q : Flow × Wat.Config} (h : EndRel globals result p q)
    (returns : result ≠ .void → p.1 ≠ .next) :
    Run.Match (Returned globals result) (Source.finish resultNode p)
      ((funcOf isEntry name tag params declared result code).finish q) := by
  cases h with
  | next rel =>
    by_cases isVoid : result = .void
    · subst isVoid
      rw [Source.finish, if_pos (Kind.eq_void_of_type? isResult)]
      exact .pure ⟨.void, rel⟩
    · exact absurd rfl (returns isVoid)
  | «return» holds rel =>
    cases holds with
    | int w => exact .pure ⟨.int w, rel⟩
    | boolean b => exact .pure ⟨.boolean b, rel⟩
    | void => exact .pure ⟨.void, rel⟩
    | string raw => rcases Kind.hasValue_or_void_of_type? isResult with h | h <;> cases h

/-- A body with what stands behind it does what the statements do. -/
theorem match_body {isEntry : Bool} {name : Bytes} {params declared : List (Bytes × Ty)}
    {code : Code} {r : Run (Exit × Scene)} {c : Wat.Config}
    (h : Run.Match (EndRel globals result) r (execCode M code c))
    (returns : result ≠ .void → ∀ σ, r.res ≠ .ok (.next, σ)) :
    Run.Match (fun p q => EndRel globals result p q ∧ (result ≠ .void → p.1 ≠ .next)) r
      (execCode M (funcOf isEntry name tag params declared result code).body c) := by
  have hends : Run.Match (fun p q => EndRel globals result p q ∧ (result ≠ .void → p.1 ≠ .next)) r
      (execCode M code c) := by
    refine h.mono ?_
    rintro ⟨exit, σ⟩ q hr hend
    refine ⟨hend, ?_⟩
    rintro hasResult rfl
    exact returns hasResult σ hr
  by_cases isVoid : result = .void
  · have hbody : (funcOf isEntry name tag params declared result code).body = code :=
      if_neg (not_not.mpr isVoid)
    rw [hbody]
    exact hends
  · -- control does not come to the end, where it is not expected
    have hbody : (funcOf isEntry name tag params declared result code).body =
        code ++ [.op .unreachable] := if_pos isVoid
    rw [hbody, Wat.execCode_append]
    refine hends.bind_right ?_
    rintro p q ⟨hend, hreturns⟩
    cases hend with
    | next rel => exact absurd rfl (hreturns isVoid)
    | «return» holds rel => exact ⟨_, rfl, .return holds rel, hreturns⟩

/-- A function and its code do the same, if they start with related arguments. -/
theorem FunctionCode.simulates {d : Node} {name : Bytes} {sig : Signature} {f : Wat.Func Op}
    {s s' : State} (h : FunctionCode globals funcs d name sig f s s')
    (linked : Linked globals funcs data I M) (hdata : s'.literals.data ⊆ data) :
    ∃ params, Source.parameters? d = some params ∧ sig.params = params.map Prod.snd ∧
      ∀ {args ws source store},
        HoldAll sig.params args
          (startValues (d.kind = .entryPointDeclaration) params ws) →
        StoreRel globals source store →
        Run.Match (Returned globals sig.result) (Source.enter I d args source)
          (f.run M ws store) := by
  cases h with
  | @intro kind attr loc note resultNode name nameLoc nameNote nameCh listAttr listLoc listNote ps
      bodyAttr bodyLoc bodyNote ss result params number tag scopes _ code _ isResult binds distinct
      isTag body builtins userFuncs returns =>
    refine ⟨params, binds, rfl, ?_⟩
    intro args ws source store holds global
    have hcount : args.length = params.length := by
      rw [holds.length.2, List.length_map]
    have apart : ∀ x, localName tag x ≠ scratch := by
      intro x
      rw [isTag]
      exact localName_ne_scratch number x
    have hstart : SceneRel tag ⟨params, globals, funcs⟩ ((declaredBy ss).map Prod.fst)
        ⟨fun x => ((params.map Prod.fst).zip args).lookup x, source⟩
        ((funcOf (kind = .entryPointDeclaration) name tag params (declaredBy ss) result code).bound
          ws) store := .start apart distinct holds global
    have hbody := body.simulates linked hdata hstart
    have halts : ∀ name, Check.halts scopes name = true → ∀ args source p,
        (I.call name args source).res ≠ .ok p := by
      intro name hhalts
      simp only [Check.halts, Bool.and_eq_true, beq_iff_eq, Option.isNone_iff_eq_none] at hhalts
      obtain ⟨⟨rfl, huser⟩, -⟩ := hhalts
      rw [Scope.func?, userFuncs] at huser
      exact linked.halt huser
    have hreturns : result ≠ .void → ∀ σ, (Source.execAll I ss
        ⟨fun x => ((params.map Prod.fst).zip args).lookup x, source⟩).res ≠ .ok (.next, σ) := by
      intro hasResult σ
      exact execAll_not_next (fun n _ => exec_not_next halts n) (returns hasResult) (by decide) _ σ
    have henter : Source.enter I ⟨kind, attr, loc, note, [resultNode,
          ⟨.id, name, nameLoc, nameNote, nameCh⟩,
          ⟨.formalParameterList, listAttr, listLoc, listNote, ps⟩,
          ⟨.block, bodyAttr, bodyLoc, bodyNote, ss⟩]⟩ args source =
        Source.execAll I ss ⟨fun x => ((params.map Prod.fst).zip args).lookup x, source⟩ >>=
          Source.finish resultNode := by
      simp only [Source.enter, Source.parameters?, binds, if_pos hcount]
    rw [henter]
    refine (match_body hbody hreturns).bind ?_
    rintro p q ⟨hend, hnext⟩
    exact hend.finish isResult hnext

end TreeWat.Lower
