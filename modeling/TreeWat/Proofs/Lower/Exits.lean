import TreeWat.Proofs.Lower.Diverts
import TreeWat.Proofs.Lower.Simulation.Program
import TreeWat.Proofs.Source.Numerals
import TreeWat.Proofs.Source.Soundness
set_option autoImplicit false

/-!
# Lower: functions with a result return

The body of a function with a result ends by a `return` with a value of that type or does
not end at all: it keeps the rules of the language, so it is not left by a `break`, and it
is classified as decisive, so it does not end in the usual way.  Calls in it are settled
by induction on the fuel.  In generated code, control never comes to the `unreachable`
behind the code of such a function.
-/

namespace TreeWat.Lower

open Source (Value Scene Interpreter)
open Wat (Op)
open Check (Context checkStatementIn exitOf)

/-! ## Decisive statements in source programs -/

section Declarations

variable {ds ds' ds'' : List Node} {vs : List (Bytes × Ty)} {fs : List (Bytes × Signature)}
  {c c' : Context} {root root' : Node}

/-- The collected functions are the declared ones. -/
theorem find_none_iff (noted : Check.DeclsNoted ds ds' vs fs) {x : Bytes} :
    ds.find? (Source.declares x) = none ↔ fs.lookup x = none := by
  induction noted with
  | nil => simp
  | entryPoint _ _ ih =>
    rw [List.find?_cons_of_neg (by simp [not_declares])]
    exact ih
  | global _ _ ih =>
    rw [List.find?_cons_of_neg (by simp [not_declares])]
    exact ih
  | @function _ _ _ _ name _ _ _ _ _ _ _ _ _ _ _ _ ih =>
    by_cases hname : x = name
    · subst hname
      simp [Source.declares]
    · rw [List.find?_cons_of_neg (by simp [Source.declares, Ne.symm hname]), List.lookup_cons,
        beq_false_of_ne hname]
      exact ih

theorem declsNoted_of_collectGlobals
    (collected : Check.collectGlobals .initial root = (.ok (), root', c)) :
    Check.DeclsNoted root.children root'.children c.scopes.globals.vars c.scopes.globals.funcs := by
  obtain ⟨decls, -, hdecls, -, rfl⟩ := Check.collectGlobals_ok collected
  obtain ⟨vs, fs, hnoted, hvars, hfuncs⟩ := Check.declsNoted_of_collectDeclarations hdecls
  obtain rfl : c.scopes.globals.vars = vs := hvars
  obtain rfl : c.scopes.globals.funcs = fs := hfuncs
  exact hnoted

/-- A call of the library's `halt` does not come back. -/
theorem calls_halt (library : ds.find? (Source.declares (utf8 "halt")) = none) (n : Nat)
    (args : List Value) (store : Store Value) (p : Value × Store Value) :
    (Source.calls ds n (utf8 "halt") args store).res ≠ .ok p := by
  rw [calls_builtin library]
  rcases args with _ | ⟨_ | _ | _ | _, _ | _⟩ <;> exact fun h => by cases h

/-- The calls that are classified as halting do not come back. -/
theorem not_ok_of_halts {scopes : Scopes} {I : Interpreter}
    (builtins : scopes.builtins = .builtins)
    (halt : scopes.globals.funcs.lookup (utf8 "halt") = none →
      ∀ args store p, (I.call (utf8 "halt") args store).res ≠ .ok p) :
    ∀ name, Check.halts scopes name = true → ∀ args store p,
      (I.call name args store).res ≠ .ok p := by
  intro name halts
  obtain ⟨rfl, huser⟩ := (halts_iff builtins).mp halts
  exact halt huser

/-- A statement that the second round accepted and the third one takes to be decisive does
not end in the usual way, whatever the rest of the program. -/
theorem exec_not_next_of_accepted
    (collected : Check.collectGlobals .initial root = (.ok (), root', c)) {scopes : Scopes}
    (builtins : scopes.builtins = .builtins) (userFuncs : scopes.globals = c.scopes.globals)
    {own : Option ScopeId} {c₁ c₂ : Context} {n n' : Node}
    (accepted : checkStatementIn own c₁ n = (.ok (), n', c₂)) {e : Check.Exit}
    (exit : exitOf scopes n' = .ok e) (decisive : e ≠ .doesNotAlwaysReturn) (k fuel : Nat)
    (σ σ' : Scene) :
    (Source.exec ⟨Source.calls root.children k, fuel⟩ n σ).res ≠ .ok (.next, σ') := by
  have hnoted := declsNoted_of_collectGlobals collected
  rw [Check.exitOf_noted accepted] at exit
  refine exec_not_next (not_ok_of_halts builtins ?_) n exit decisive σ σ'
  intro huser
  rw [userFuncs] at huser
  exact calls_halt ((find_none_iff hnoted).mpr huser) k

/-! ## The functions of an accepted program -/

/-- The rules do not mention the name of a function. -/
theorem functionObeys_rename {globals : List (Bytes × Ty)} {funcs : List (Bytes × Signature)}
    {kind : Kind} {attr : Bytes} {loc : Location} {note : Option Annotation}
    {resultNode name list body : Node}
    (obeys : FunctionObeys globals funcs ⟨kind, attr, loc, note, [resultNode, name, list, body]⟩)
    (name' : Node) :
    FunctionObeys globals funcs ⟨kind, attr, loc, note, [resultNode, name', list, body]⟩ := by
  cases obeys with
  | intro isResult isParameter binds distinct body =>
    exact .intro isResult isParameter binds distinct body

theorem functionObeys_of_checkBodiesOf (noted : Check.DeclsNoted ds ds' vs fs)
    (h : Check.Between c) (accepted : Check.checkBodiesOf c ds' = (.ok (), ds'', c')) :
    ∀ d ∈ ds, d.kind = .functionDeclaration →
      FunctionObeys c.scopes.globals.vars c.scopes.globals.funcs d := by
  induction noted generalizing c ds'' with
  | nil => simp
  | entryPoint _ _ ih =>
    obtain ⟨d', c₁, rest', hd, hrest, -⟩ := checkBodiesOf_function (.inr rfl) accepted
    have hframe := Check.checkFunction_frame h hd
    have hothers := ih (h.of_frame hframe) hrest
    rw [hframe.globals] at hothers
    exact List.forall_mem_cons.mpr ⟨by simp, hothers⟩
  | function _ _ _ ih =>
    obtain ⟨d', c₁, rest', hd, hrest, -⟩ := checkBodiesOf_function (.inl rfl) accepted
    have hframe := Check.checkFunction_frame h hd
    have hothers := ih (h.of_frame hframe) hrest
    rw [hframe.globals] at hothers
    have hfirst := functionObeys_rename (Check.functionObeys_of_checkFunction h hd)
    exact List.forall_mem_cons.mpr ⟨fun _ => hfirst _, hothers⟩
  | global _ _ ih =>
    obtain ⟨rest', hrest, -⟩ := checkBodiesOf_other (by simp) accepted
    exact List.forall_mem_cons.mpr ⟨by simp, ih h hrest⟩

end Declarations

section Functions

variable {globals : List (Bytes × Ty)} {funcs : List (Bytes × Signature)} {ds : List Node}
  {parts : Parts} {s₀ s : State} {allowed : Stop → Prop}

theorem DeclsCode.function_mem {vs : List (Bytes × Ty)} {fs : List (Bytes × Signature)}
    (h : DeclsCode globals funcs ds vs fs parts s₀ s) :
    ∀ d ∈ ds, d.kind = .functionDeclaration →
      ∃ name sig f s₁ s₂, FunctionCode globals funcs d name sig f s₁ s₂ := by
  induction h with
  | nil => simp
  | entryPoint isEntry _ _ _ ih => exact List.forall_mem_cons.mpr ⟨by simp [isEntry], ih⟩
  | function _ code _ ih =>
    exact List.forall_mem_cons.mpr ⟨fun _ => ⟨_, _, _, _, _, code⟩, ih⟩
  | global isDeclaration _ _ ih =>
    exact List.forall_mem_cons.mpr ⟨by simp [isDeclaration], ih⟩

/-- What a function with code is made of.  With a result, its body does not end in the
usual way where the library's `halt` does not come back. -/
theorem FunctionCode.shape {d : Node} {name : Bytes} {sig : Signature} {f : Wat.Func Op}
    (h : FunctionCode globals funcs d name sig f s₀ s) :
    ∃ resultNode id list body params, d.children = [resultNode, id, list, body] ∧
      resultNode.kind.type? = some sig.result ∧ Source.parameters? d = some params ∧
      sig.params = params.map Prod.snd ∧
      ∀ {I : Interpreter}, (funcs.lookup (utf8 "halt") = none →
          ∀ args store p, (I.call (utf8 "halt") args store).res ≠ .ok p) →
        sig.result ≠ .void → ∀ σ σ', (Source.execAll I body.children σ).res ≠ .ok (.next, σ') := by
  cases h with
  | intro isResult binds _ _ _ builtins userFuncs returns =>
    refine ⟨_, _, _, _, _, rfl, isResult, binds, rfl, ?_⟩
    intro I halt hasResult σ σ'
    rw [← userFuncs] at halt
    exact execAll_not_next (fun n _ => exec_not_next (not_ok_of_halts builtins halt) n)
      (returns hasResult) (by decide) σ σ'

/-- Calls of the library are sound, so only those of the program's functions are left. -/
theorem sound_of_userCalls (expected : ∀ {e : Stop}, e.expected = true → allowed e)
    (code : DeclsCode globals funcs ds globals funcs parts s₀ s) {n : Nat}
    (user : ∀ {x sig}, funcs.lookup x = some sig → ∀ {args store},
      args.map Value.type = sig.params → Source.VarsTyped globals store.globals →
      Run.EndsWith allowed (Source.ResultTyped globals sig.result) (Source.calls ds n x args store))
    (fuel : Nat) : Interpreter.Sound allowed globals funcs ⟨Source.calls ds n, fuel⟩ where
  expected := expected
  call {name sig args store} resolved valued hargs hstore := by
    show Run.EndsWith _ _ (Source.calls ds n name args store)
    unfold Names.func? at resolved
    cases hx : funcs.lookup name with
    | some sig' =>
      simp only [hx, Option.some_or, Option.some.injEq] at resolved
      subst resolved
      exact user hx hargs hstore
    | none =>
      simp only [hx, Option.none_or] at resolved
      rw [calls_builtin (code.find_none hx)]
      exact Source.builtin_sound expected resolved valued hargs hstore
  prints {raw store} hx printable hstore := by
    show Run.EndsWith _ _ (Source.calls ds n (utf8 "prints") [.text raw] store)
    rw [calls_builtin (code.find_none hx)]
    exact Source.builtin_prints_sound printable hstore

/-- Calls yield values of the result types of the functions, by induction on the fuel. -/
theorem calls_sound (expected : ∀ {e : Stop}, e.expected = true → allowed e)
    (code : DeclsCode globals funcs ds globals funcs parts s₀ s)
    (valued : Names.Valued ⟨[], globals, funcs⟩)
    (obey : ∀ d ∈ ds, d.kind = .functionDeclaration → FunctionObeys globals funcs d)
    (printed : ∀ d ∈ ds, Source.PrintedAll (Source.Printable allowed) d) (n fuel : Nat) :
    Interpreter.Sound allowed globals funcs ⟨Source.calls ds n, fuel⟩ := by
  induction n generalizing fuel with
  | zero =>
    refine sound_of_userCalls expected code ?_ fuel
    intro x sig hx args store _ _
    obtain ⟨d, -, -, -, hd, -⟩ := code.find_function hx
    rw [Source.calls, Source.resolve, hd]
    exact .stop (expected rfl)
  | succ n ih =>
    refine sound_of_userCalls expected code ?_ fuel
    intro x sig hx args store hargs hstore
    obtain ⟨d, f, s₁, s₂, hd, -, isFunction, hcode, -⟩ := code.find_function hx
    obtain ⟨resultNode, id, list, body, params, hchildren, isResult, binds, hparams, hreturns⟩ :=
      hcode.shape
    have hmem : d ∈ ds := List.mem_of_find?_eq_some hd
    rw [hparams] at hargs
    rw [Source.calls, Source.resolve, hd]
    exact Source.enter_sound (ih n) valued (obey d hmem isFunction) (printed d hmem) hchildren
      isResult binds (hreturns fun hx => calls_halt (code.find_none hx) n) hargs hstore

end Functions

/-! ## Programs -/

/-- How a run of the body of a function with a result can end: by a `return` with a value of
that type, at a stop that the program asked for, in a division without a quotient, or not
within the bound on loops and calls.  Apart from that, the language does not say what a
numeral means that is no 32-bit number, nor what an unknown escape prints. -/
inductive ReturnsOrStops (root : Node) (result : Ty) :
    Except Stop (Source.Exit × Scene) → Prop where
  | value {v σ} (hasType : v.type = result) : ReturnsOrStops root result (.ok (.return v, σ))
  | halted : ReturnsOrStops root result (.error .halted)
  | division : ReturnsOrStops root result (.error .division)
  | outOfFuel : ReturnsOrStops root result (.error .outOfFuel)
  | numeral (unfit : ¬ Source.NumeralsFit root) : ReturnsOrStops root result (.error .numeral)
  | escape (unknown : ¬ Source.PrintedAll (fun raw => (Source.literalBytes? raw).isSome) root) :
      ReturnsOrStops root result (.error .wrong)

section Programs

variable {root : Node} {checked : Check.CheckedProgram}

/-- The functions of an accepted program keep the rules, among variables and functions that
have and take values. -/
theorem obeys_of_checkProgram (accepted : Check.checkProgram root = .ok checked) :
    Names.Valued ⟨[], checked.scopes.globals.vars, checked.scopes.globals.funcs⟩ ∧
      ∀ d ∈ root.children, d.kind = .functionDeclaration →
        FunctionObeys checked.scopes.globals.vars checked.scopes.globals.funcs d := by
  obtain ⟨root', c, c', ds, hcollect, hbodies, -, rfl⟩ := checkProgram_ok accepted
  have hcollected := Check.Collected.of_collectGlobals hcollect
  have hnoted := declsNoted_of_collectGlobals hcollect
  rw [(checkBodiesOf_frame hcollected.toBetween hbodies).globals]
  exact ⟨⟨by simp, hcollected.varTypes, hcollected.funcTypes⟩,
    functionObeys_of_checkBodiesOf hnoted hcollected.toBetween hbodies⟩

/-- The stops that the source program leaves open: those that the checker does not exclude,
and an unknown escape if the program prints one. -/
def LeftOpen (root : Node) (e : Stop) : Prop :=
  e.expected = true ∨
    e = .wrong ∧ ¬ Source.PrintedAll (fun raw => (Source.literalBytes? raw).isSome) root

theorem printable_of_leftOpen (root : Node) :
    Source.PrintedAll (Source.Printable (LeftOpen root)) root := by
  by_cases hknown : Source.PrintedAll (fun raw => (Source.literalBytes? raw).isSome) root
  · exact fun m hm raw hraw => .inl (hknown m hm raw hraw)
  · exact fun _ _ _ _ => .inr (.inr ⟨rfl, hknown⟩)

/-- A body of which more is known ends as it may. -/
theorem ReturnsOrStops.of_endsWith {globals : List (Bytes × Ty)} {result : Ty}
    {r : Run (Source.Exit × Scene)} (hasResult : result ≠ .void)
    (ends : r.EndsWith (LeftOpen root) fun p =>
      Source.EndTyped globals result p ∧ (result ≠ .void → p.1 ≠ .next))
    (numbers : Source.NumeralsFit root → r.Avoids .numeral) :
    ReturnsOrStops root result r.res := by
  cases ends with
  | value holds =>
    obtain ⟨hend, hnext⟩ := holds
    cases hend with
    | next typed => exact absurd rfl (hnext hasResult)
    | «return» hv typed => exact .value hv
  | @stopped out e isAllowed =>
    rcases isAllowed with hexpected | ⟨rfl, hunknown⟩
    · cases e with
      | halted => exact .halted
      | division => exact .division
      | outOfFuel => exact .outOfFuel
      | numeral => exact .numeral fun fits => numbers fits rfl
      | _ => cases hexpected
    · exact .escape hunknown

/-- The body of a function with a result never ends in the usual way. -/
theorem body_returnsOrStops (accepted : Check.checkProgram root = .ok checked)
    {d resultNode id list body : Node} (hd : d ∈ root.children)
    (isFunction : d.kind = .functionDeclaration)
    (parts : d.children = [resultNode, id, list, body]) {result : Ty}
    (isResult : resultNode.kind.type? = some result) (hasResult : result ≠ .void)
    {params : List (Bytes × Ty)} (binds : Source.parameters? d = some params) {args : List Value}
    (hargs : args.map Value.type = params.map Prod.snd) {store : Store Value}
    (hstore : Source.VarsTyped (declaredBy root.children) store.globals) (k fuel : Nat) :
    ReturnsOrStops root result (Source.execAll ⟨Source.calls root.children k, fuel⟩ body.children
      ⟨fun x => ((params.map Prod.fst).zip args).lookup x, store⟩).res := by
  obtain ⟨moduleParts, s, -, hcode⟩ := declsCode_of_checkProgram accepted false
  obtain ⟨valued, obey⟩ := obeys_of_checkProgram accepted
  have hprinted : ∀ d ∈ root.children, Source.PrintedAll (Source.Printable (LeftOpen root)) d :=
    fun d hd => (printable_of_leftOpen root).child hd
  have hsound := calls_sound .inl hcode valued obey hprinted k fuel
  obtain ⟨name, sig, f, s₁, s₂, hfunction⟩ := hcode.function_mem d hd isFunction
  obtain ⟨resultNode', id', list', body', params', parts', isResult', -, -, hreturns⟩ :=
    hfunction.shape
  cases parts.symm.trans parts'
  obtain rfl : sig.result = result := Option.some.inj (isResult'.symm.trans isResult)
  rw [hcode.vars_eq] at hstore
  refine .of_endsWith hasResult (Source.functionBody_sound hsound valued (obey d hd isFunction)
    (hprinted d hd) parts isResult binds
    (hreturns fun hx => calls_halt (hcode.find_none hx) k) hargs hstore) ?_
  intro fits
  have hnumbers := Source.calls_avoids (fun d hd => fits.child hd) k fuel
  have hbody : Source.NumeralsFit body := (fits.child hd).child (by rw [parts]; simp)
  exact Source.execAll_avoids (fun n hn => Source.exec_avoids hnumbers n (hbody.child hn)) _

/-- Control never comes to the `unreachable` behind the code of a function with a result. -/
theorem func_diverts (accepted : Check.checkProgram root = .ok checked) (debug : Bool) :
    ∃ m, program ⟨checked.scopes, debug⟩ checked.tree = .ok m ∧
      ∀ f ∈ m.funcs, f.result = true →
        ∃ code, f.body = code ++ [.op .unreachable] ∧ ∀ M, Diverts M code := by
  obtain ⟨parts, s, hmodule, hcode⟩ := declsCode_of_checkProgram accepted debug
  refine ⟨moduleWith parts s, by rw [program, hmodule], ?_⟩
  intro f hf hasResult
  rcases List.mem_append.mp hf with hlibrary | huser
  · simp only [library, List.mem_cons, List.not_mem_nil, or_false] at hlibrary
    rcases hlibrary with rfl | rfl | rfl <;> cases hasResult
  · obtain ⟨d, -, name, sig, s₁, s₂, hfunction, -⟩ := hcode.decl_of_func huser
    exact hfunction.diverts hasResult

/-- The calls that are classified as halting, seen in the source program. -/
theorem halts_iff_not_declared {root' : Node} {c : Context}
    (collected : Check.collectGlobals .initial root = (.ok (), root', c)) {scopes : Scopes}
    (same : SameGlobals scopes c.scopes) {name : Bytes} :
    Check.halts scopes name = true ↔
      name = utf8 "halt" ∧ ∀ d ∈ root.children, Source.declares (utf8 "halt") d = false := by
  have hbuiltins := same.builtins.trans (Check.Collected.of_collectGlobals collected).builtins
  rw [halts_iff hbuiltins, same.globals]
  refine and_congr_right ?_
  rintro rfl
  rw [← find_none_iff (declsNoted_of_collectGlobals collected), List.find?_eq_none]
  simp only [Bool.not_eq_true]

/-- The check for returns is sound.

In an accepted program, the body of a function with a result never ends in the usual way:
started with arguments of the parameter types and typed global variables, it ends by a
`return` with a value of the result type or at a stop.  The code of its module function
is followed by `unreachable`, to which control never comes, on any machine.

A statement that was accepted in its context, be the rest of the program accepted or not,
and that is classified as decisive never ends in the usual way.  A call that is a statement
is classified as halting exactly if its code ends in `unreachable`, which is so exactly if
it calls `halt` and the program declares no function of that name. -/
theorem exits_sound {root' : Node} {c₀ : Context}
    (collected : Check.collectGlobals .initial root = (.ok (), root', c₀)) :
    (∀ {checked : Check.CheckedProgram}, Check.checkProgram root = .ok checked →
      (∀ {d resultNode id list body : Node} {result : Ty} {params : List (Bytes × Ty)}
        {args : List Value} {store : Store Value}, d ∈ root.children →
        d.kind = .functionDeclaration → d.children = [resultNode, id, list, body] →
        resultNode.kind.type? = some result → result ≠ .void →
        Source.parameters? d = some params → args.map Value.type = params.map Prod.snd →
        Source.VarsTyped (declaredBy root.children) store.globals → ∀ k fuel,
          ReturnsOrStops root result (Source.execAll ⟨Source.calls root.children k, fuel⟩
            body.children ⟨fun x => ((params.map Prod.fst).zip args).lookup x, store⟩).res) ∧
      ∀ debug, ∃ m, program ⟨checked.scopes, debug⟩ checked.tree = .ok m ∧
        ∀ f ∈ m.funcs, f.result = true →
          ∃ code, f.body = code ++ [.op .unreachable] ∧ ∀ M, Diverts M code) ∧
    ∀ {scopes : Scopes} {own : Option ScopeId} {c c' : Context} {n n' : Node},
      SameGlobals scopes c₀.scopes → SameGlobals c.scopes c₀.scopes →
      checkStatementIn own c n = (.ok (), n', c') →
      (∀ {e}, exitOf scopes n' = .ok e → e ≠ .doesNotAlwaysReturn → ∀ k fuel σ σ',
        (Source.exec ⟨Source.calls root.children k, fuel⟩ n σ).res ≠ .ok (.next, σ')) ∧
      (n.kind = .functionInvocation → ∀ debug loops s, ∃ callee args code s',
        n.children = [callee, args] ∧ statement ⟨scopes, debug⟩ loops n' s = .ok (code, s') ∧
        exitOf scopes n' ∈ [.ok .alwaysReturns, .ok .doesNotAlwaysReturn] ∧
        (exitOf scopes n' = .ok .alwaysReturns ↔ code.getLast? = some (.op .unreachable)) ∧
        (code.getLast? = some (.op .unreachable) ↔ callee.attr = utf8 "halt" ∧
          ∀ d ∈ root.children, Source.declares (utf8 "halt") d = false)) := by
  have hcollected := Check.Collected.of_collectGlobals collected
  refine ⟨?_, ?_⟩
  · intro checked accepted
    refine ⟨?_, func_diverts accepted⟩
    intro d resultNode id list body result params args store hd isFunction parts isResult hasResult
      binds hargs hstore
    exact body_returnsOrStops accepted hd isFunction parts isResult hasResult binds hargs hstore
  · intro scopes own c c' n n' same same' accepted
    have hbuiltins : scopes.builtins = .builtins := same.builtins.trans hcollected.builtins
    refine ⟨exec_not_next_of_accepted collected hbuiltins same.globals accepted, ?_⟩
    intro isCall debug loops s
    have shared : SameGlobals scopes c.scopes :=
      ⟨same.globals.trans same'.globals.symm, same.builtins.trans same'.builtins.symm⟩
    obtain ⟨callee, args, code, s', hchildren, hcode, hexit, hlast⟩ :=
      callStatement_ok shared hbuiltins isCall accepted loops s
    refine ⟨callee, args, code, s', hchildren, hcode, ?_, ?_, ?_⟩
    · rw [hexit]
      split <;> simp
    · rw [hexit, hlast]
      split <;> simp_all
    · rw [hlast, halts_iff_not_declared collected same]

/-- A statement that calls the library's `halt`. -/
def haltStatement : Node :=
  .branch .functionInvocation .nowhere
    [.leaf .id (utf8 "halt") .nowhere, .branch .argumentList .nowhere []]

theorem exits_sound_sample :
    (∃ checked, Check.checkProgram sampleProgram = .ok checked) ∧
      (∀ k fuel, ∃ body, sampleFunction.children[3]? = some body ∧
        ReturnsOrStops sampleProgram .int
          (Source.execAll ⟨Source.calls sampleProgram.children k, fuel⟩ body.children
            ⟨fun x => ([utf8 "n", utf8 "loop"].zip [.int 3, .bool true]).lookup x,
              Source.initialStore sampleProgram.children fun _ => 0⟩).res) ∧
      ∃ root' c n' c' code s, Check.collectGlobals .initial sampleProgram = (.ok (), root', c) ∧
        checkStatementIn none c haltStatement = (.ok (), n', c') ∧
        statement ⟨c.scopes, false⟩ [] n' .initial = .ok (code, s) ∧
        code.getLast? = some (.op .unreachable) ∧ ∀ σ σ',
          (Source.exec ⟨Source.calls sampleProgram.children 1, 1⟩ haltStatement σ).res ≠
            .ok (.next, σ') := by
  have collected : Check.collectGlobals .initial sampleProgram =
      (.ok (), (Check.collectGlobals .initial sampleProgram).2.1,
        (Check.collectGlobals .initial sampleProgram).2.2) := Prod.ext rfl rfl
  obtain ⟨sound, decisive⟩ := exits_sound collected
  obtain ⟨checked, accepted⟩ := sampleProgram_accepted
  refine ⟨⟨checked, accepted⟩, ?_, ?_⟩
  · intro k fuel
    refine ⟨_, rfl, ?_⟩
    have hd : sampleFunction ∈ sampleProgram.children := List.mem_cons_of_mem _ List.mem_cons_self
    exact (sound accepted).1 hd rfl rfl rfl (by decide) rfl rfl
      (Source.initialStore_typed _ _) k fuel
  · have hstatement : checkStatementIn none (Check.collectGlobals .initial sampleProgram).2.2
        haltStatement = (.ok (), _, _) := Prod.ext rfl rfl
    obtain ⟨hnext, hcall⟩ := decisive ⟨rfl, rfl⟩ ⟨rfl, rfl⟩ hstatement
    obtain ⟨callee, args, code, s, hchildren, hcode, -, hexit, hlast⟩ := hcall rfl false [] .initial
    cases hchildren
    have hends : code.getLast? = some (.op .unreachable) := hlast.mpr ⟨rfl, by decide⟩
    exact ⟨_, _, _, _, code, s, collected, hstatement, hcode, hends,
      hnext (hexit.mpr hends) (by decide) 1 1⟩

end Programs

end TreeWat.Lower
