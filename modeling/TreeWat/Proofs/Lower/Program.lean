import TreeWat.Proofs.Check.Exit
import TreeWat.Proofs.Lower.Accepted
set_option autoImplicit false

/-!
# Lower: an accepted program has a module

A function is lowered with the scopes of the finished check, in which its own scope
holds all its variables; the functions checked after it have only added scopes
behind.  From the functions follows the module of the whole program, and that
lowering never fails on a program that passed the checker.
-/

namespace TreeWat.Lower

open Wat (Code Op Arith Instr)
open Check (Context Inside FunctionScope Frame Between checkStatements checkFunction checkBodiesOf)

variable {env : Env} {f : FunctionScope} {c c' : Context} {Γ : Names}

/-! ## Bodies -/

theorem statement_declaration {loops : List Nat} {n : Node}
    (isDeclaration : n.kind = .variableDeclaration) (s : State) :
    statement env loops n s = .ok ([], s) := by
  rcases n with ⟨kind, attr, loc, note, children⟩
  obtain rfl : kind = .variableDeclaration := isDeclaration
  rw [statement]
  rfl

theorem bodyCode_of_checkStatements {ss ss' : List Node} (h : Inside f c [] false Γ)
    (valued : Γ.Valued) (agrees : Agrees env f Γ.funcs)
    (accepted : checkStatements c ss = (.ok (), ss', c')) (s : State) :
    ∃ code s', statements env [] ss' s = .ok (code, s') ∧
      BodyCode f.tag f.result Γ ss s code s' := by
  induction ss generalizing c Γ ss' s with
  | nil =>
    obtain ⟨rfl, -⟩ := Check.checkStatements_nil.mp accepted
    exact ⟨[], s, rfl, .nil⟩
  | cons n rest ih =>
    obtain ⟨n', c₁, rest', hn, hrest, rfl⟩ := Check.checkStatements_cons.mp accepted
    by_cases isDeclaration : n.kind = .variableDeclaration
    · obtain ⟨name, ty, hbinding, -, hkind, rfl⟩ := Check.checkDeclaration_ok h isDeclaration hn
      obtain ⟨code, s', hcode, hbody⟩ := ih (h.bind name ty)
        (valued.declare (Node.binding?_hasValue hbinding)) agrees hrest s
      refine ⟨code, s', ?_, .declaration isDeclaration hbinding hbody⟩
      rw [statements, step_bind (statement_declaration hkind s), step_bind hcode, step_pure]
      rfl
    · have hframe := Check.checkStatementIn_frame h (by simp) (fun _ => isDeclaration) hn
      obtain ⟨code, s₁, hcode, hfirst⟩ := stmtCode_of_checkStatementIn valued agrees h (by simp)
        (fun _ => isDeclaration) (by simp) hn s
      obtain ⟨more, s₂, hmore, hbody⟩ := ih (h.of_frame hframe) valued agrees hrest s₁
      refine ⟨code ++ more, s₂, ?_, .statement hfirst hbody⟩
      rw [statements, step_bind hcode, step_bind hmore, step_pure]

/-! ## Functions -/

theorem childOf_ok {n m : Node} {i : Nat} (h : n.children[i]? = some m) (s : State) :
    childOf n i s = .ok (m, s) := by
  unfold childOf
  rw [Node.child_ok_iff.mpr h]
  rfl

theorem paramNames_ok {body : Node} {owner : Scope}
    (isOwner : ∀ s, ownerOf env body s = .ok (owner, s)) {ps : List Node}
    {params : List (Bytes × Ty)} (binds : ps.mapM Node.binding? = some params) (s : State) :
    paramNames env body ps s = .ok (params.map fun v => owner.storageName v.1, s) := by
  induction ps generalizing params with
  | nil =>
    cases binds
    rfl
  | cons p rest ih =>
    obtain ⟨⟨name, ty⟩, vs, hp, hrest, rfl⟩ := bindings_cons.mp binds
    obtain ⟨t, id, hch, -, -, rfl⟩ := Node.binding?_eq_some.mp hp
    have hid : p.children[1]? = some id := by simp [hch]
    rw [paramNames, step_bind (childOf_ok hid s), step_bind (isOwner s), step_bind (ih hrest)]
    rfl

/-- The scopes at the end of a check, as lowering a function of it sees them. -/
theorem agrees_of_frame {cEnd : Context} {locals : List (Bytes × Ty)} (h : Between c)
    (function : c.scopes.opened[f.number]? = some (f.scope locals))
    (hframe : Frame c.scopes.opened.length c cEnd) (hscopes : env.scopes = cEnd.scopes) :
    Agrees env f c.scopes.globals.funcs ∧ env.scopes.get (.opened f.number) = f.scope locals := by
  have hlt : f.number < c.scopes.opened.length := (List.getElem?_eq_some_iff.mp function).1
  have hend : cEnd.scopes.opened[f.number]? = some (f.scope locals) :=
    (hframe.opened f.number hlt).trans function
  have hget : env.scopes.get (.opened f.number) = f.scope locals := by
    rw [hscopes]
    exact Scopes.get_opened_of_getElem? hend
  refine ⟨⟨?_, ?_, ?_, ?_, ?_, ?_⟩, hget⟩
  · rw [hscopes, hframe.builtins, h.builtins]
  · rw [hscopes, hframe.globals, h.globalVariant]
  · rw [hscopes, hframe.globals, h.globalTag]
  · rw [hscopes, hframe.globals]
  · rw [hget]
    rfl
  · rw [hget]
    rfl

/-- A name noted with the scope of the user's declarations. -/
theorem storageName_global (htag : env.scopes.globals.tag = utf8 "G") {name sig : Bytes}
    {loc : Location} {ch : List Node} (s : State) :
    storageName env ⟨.id, name, loc, some ⟨sig, some .globals⟩, ch⟩ s =
      .ok (globalName name, s) := by
  have hname : env.scopes.globals.storageName name = globalName name := by
    unfold Scope.storageName globalName
    rw [htag]
  rw [← hname]
  rfl

/-- Lowering a function whose body has code. -/
theorem function_ok {kind : Kind} {attr name sig listAttr bodyAttr : Bytes}
    {loc nameLoc listLoc bodyLoc : Location} {note listNote : Option Annotation}
    {resultNode : Node} {nameCh ps ss : List Node} {result : Ty}
    {params declared : List (Bytes × Ty)} {s s' : State} {code : Code}
    {funcs : List (Bytes × Signature)} (agrees : Agrees env f funcs)
    (hget : env.scopes.get (.opened f.number) = f.scope (params ++ declared))
    (isResult : resultNode.kind.type? = some result)
    (binds : ps.mapM Node.binding? = some params)
    (hcode : statements env [] ss s = .ok (code, s')) :
    function env ⟨kind, attr, loc, note, [resultNode,
        ⟨.id, name, nameLoc, some ⟨sig, some .globals⟩, nameCh⟩,
        ⟨.formalParameterList, listAttr, listLoc, listNote, ps⟩,
        ⟨.block, bodyAttr, bodyLoc, some ⟨[], some (.opened f.number)⟩, ss⟩]⟩ s =
      .ok (funcOf (kind = .entryPointDeclaration) name f.tag params declared result code, s') := by
  have hbody : ∀ s, ownerOf env
      ⟨.block, bodyAttr, bodyLoc, some ⟨[], some (.opened f.number)⟩, ss⟩ s =
        .ok (f.scope (params ++ declared), s) := by
    intro s
    rw [← hget]
    rfl
  have hblock : statement env []
      ⟨.block, bodyAttr, bodyLoc, some ⟨[], some (.opened f.number)⟩, ss⟩ s = .ok (code, s') := by
    rw [statement]
    exact hcode
  have hresult : (resultNode.kind != .void) = decide (result ≠ .void) := by
    cases hkind : resultNode.kind <;> rw [hkind] at isResult <;> cases isResult <;> rfl
  have hnames : (f.scope (params ++ declared)).varNames = (params ++ declared).map Prod.fst := rfl
  have hstorage : (f.scope (params ++ declared)).storageName = localName f.tag := rfl
  unfold function
  rw [step_bind (childOf_ok rfl s), step_bind (childOf_ok rfl s), step_bind (childOf_ok rfl s)]
  by_cases isEntry : kind = .entryPointDeclaration
  · simp only [isEntry, if_true]
    rw [step_bind (step_pure entryName s), step_bind (paramNames_ok hbody rfl s),
      step_bind (hbody s), if_neg (by simp), step_bind hblock, step_pure, hresult, hnames, hstorage]
    simp [funcOf, Function.comp_def]
  · simp only [isEntry, if_false]
    have hlength : ps.length = (params.map Prod.fst).length := by
      rw [List.length_map, bindings_length binds]
    rw [step_bind (childOf_ok rfl s), step_bind (storageName_global agrees.globalTag s),
      step_bind (paramNames_ok hbody binds s),
      step_bind (hbody s), hnames, if_neg (by simp [bindings_length binds]), step_bind hblock,
      step_pure, hresult, hstorage, List.map_append, hlength, List.drop_left]
    simp [funcOf, Function.comp_def]

/-- An accepted function with its notes has code.  The tree without notes differs from
the one that is checked by the note on its name. -/
theorem functionCode_of_checkFunction {cEnd : Context} {kind : Kind} {attr name sig : Bytes}
    {loc nameLoc : Location} {note : Option Annotation} {resultNode params body fn' : Node}
    {nameCh : List Node} {result : Ty} (h : Between c) (valued : c.names.Valued)
    (isFunction : kind = .functionDeclaration ∨ kind = .entryPointDeclaration)
    (isResult : resultNode.kind.type? = some result)
    (accepted : checkFunction c ⟨kind, attr, loc, note, [resultNode,
      ⟨.id, name, nameLoc, some ⟨sig, some .globals⟩, nameCh⟩, params, body]⟩ = (.ok (), fn', c'))
    (hframe : Frame c'.scopes.opened.length c' cEnd) (hscopes : env.scopes = cEnd.scopes)
    (returns : Check.checkReturns env.scopes fn' = .ok ()) (s : State) :
    ∃ ps func s', params.children.mapM Node.binding? = some ps ∧
      function env fn' s = .ok (func, s') ∧
      FunctionCode c.scopes.globals.vars c.scopes.globals.funcs ⟨kind, attr, loc, note,
        [resultNode, ⟨.id, name, nameLoc, none, nameCh⟩, params, body]⟩
        name ⟨ps.map Prod.snd, result⟩ func s s' := by
  have hout := Check.checkFunction_frame h accepted
  cases Check.checkFunction_ok_iff.mp accepted with
  | @intro _ _ _ _ _ _ listAttr listLoc listNote ps ps' bodyAttr bodyLoc ss ss' result' _ c₁ c₂
      isInside isResult' acceptedParams acceptedBody =>
    subst isInside
    obtain rfl : result' = result := Option.some.inj (isResult'.symm.trans isResult)
    obtain ⟨vs, -, hbinds, hbinds', hnodup, hin, -⟩ :=
      Check.checkParameters_run (h.enter loc result') (by simp [Context.names]) acceptedParams
    obtain ⟨-, hdistinct, hend, -⟩ := Check.checkBody_run hin hnodup acceptedBody
    have hbetween : Between (c₂.leaveTo c) := h.of_frame hout
    obtain ⟨hagrees, hget⟩ := agrees_of_frame hbetween hend.function hframe hscopes
    have hnames : c.names.declareAll vs = ⟨vs, c.scopes.globals.vars, c.scopes.globals.funcs⟩ :=
      rfl
    have hlocals : ((c.names.declareAll vs).declareAll (declaredBy ss)).locals =
      vs ++ declaredBy ss := rfl
    rw [hout.globals] at hagrees
    rw [hlocals] at hget
    rw [hnames] at hin
    have hvalued : Names.Valued ⟨vs, c.scopes.globals.vars, c.scopes.globals.funcs⟩ :=
      ⟨bindings_hasValue hbinds, valued.globals, valued.funcs⟩
    obtain ⟨code, s', hcode, hbody⟩ := bodyCode_of_checkStatements hin hvalued hagrees
      acceptedBody s
    have hexit : result' ≠ .void → Check.exitOfAll env.scopes ss = .ok .alwaysReturns := by
      intro hasResult
      rw [← Check.exitOfAll_of_checkStatements acceptedBody]
      exact Check.exitOfAll_of_checkReturns isFunction isResult hasResult returns
    have hid : (c.enter fun tag => .function tag loc result').2 =
      .opened (c.nextFunction loc result').number := rfl
    rw [hid]
    refine ⟨vs, _, s', hbinds, function_ok hagrees hget isResult hbinds' hcode, ?_⟩
    exact .intro isResult hbinds hdistinct rfl hbody hagrees.builtins hagrees.globalFuncs hexit

/-! ## Programs -/

theorem checkBodiesOf_function {d : Node} {rest ds' : List Node}
    (isFunction : d.kind = .functionDeclaration ∨ d.kind = .entryPointDeclaration)
    (accepted : checkBodiesOf c (d :: rest) = (.ok (), ds', c')) :
    ∃ d' c₁ rest', checkFunction c d = (.ok (), d', c₁) ∧
      checkBodiesOf c₁ rest = (.ok (), rest', c') ∧ ds' = d' :: rest' := by
  rw [checkBodiesOf, if_pos isFunction] at accepted
  rcases hd : checkFunction c d with ⟨_ | ⟨⟩, d', c₁⟩
  · simp [hd] at accepted
  · rcases hrest : checkBodiesOf c₁ rest with ⟨o, rest', c₂⟩
    simp only [hd, hrest] at accepted
    cases accepted
    exact ⟨d', c₁, rest', rfl, hrest, rfl⟩

theorem checkBodiesOf_other {d : Node} {rest ds' : List Node}
    (isOther : ¬(d.kind = .functionDeclaration ∨ d.kind = .entryPointDeclaration))
    (accepted : checkBodiesOf c (d :: rest) = (.ok (), ds', c')) :
    ∃ rest', checkBodiesOf c rest = (.ok (), rest', c') ∧ ds' = d :: rest' := by
  rw [checkBodiesOf, if_neg isOther] at accepted
  rcases hrest : checkBodiesOf c rest with ⟨o, rest', c₂⟩
  simp only [hrest] at accepted
  cases accepted
  exact ⟨rest', rfl, rfl⟩

/-- Checking functions only adds scopes behind those there are. -/
theorem checkBodiesOf_frame {ds ds' : List Node} (h : Between c)
    (accepted : checkBodiesOf c ds = (.ok (), ds', c')) : Frame c.scopes.opened.length c c' := by
  induction ds generalizing c ds' with
  | nil =>
    rw [checkBodiesOf] at accepted
    cases accepted
    exact .refl _ _
  | cons d rest ih =>
    by_cases isFunction : d.kind = .functionDeclaration ∨ d.kind = .entryPointDeclaration
    · obtain ⟨d', c₁, rest', hd, hrest, -⟩ := checkBodiesOf_function isFunction accepted
      have hfirst := Check.checkFunction_frame h hd
      have hothers := ih (h.of_frame hfirst) hrest
      exact hfirst.trans (hothers.mono hfirst.length)
    · obtain ⟨rest', hrest, -⟩ := checkBodiesOf_other isFunction accepted
      exact ih h hrest

theorem kind_of_checkFunction {fn fn' : Node} (accepted : checkFunction c fn = (.ok (), fn', c')) :
    fn'.kind = fn.kind := by
  cases Check.checkFunction_ok_iff.mp accepted
  rfl

theorem declsCode_of_checkBodiesOf {ds ds' ds'' : List Node} {vs : List (Bytes × Ty)}
    {fs : List (Bytes × Signature)} (noted : Check.DeclsNoted ds ds' vs fs) (h : Between c)
    (valued : c.names.Valued) (accepted : checkBodiesOf c ds' = (.ok (), ds'', c'))
    (hscopes : env.scopes = c'.scopes)
    (returns : ∀ d ∈ ds'', Check.checkReturns env.scopes d = .ok ()) (s : State) :
    ∃ parts s', declarations env ds'' s = .ok (parts, s') ∧
      DeclsCode c.scopes.globals.vars c.scopes.globals.funcs ds vs fs parts s s' := by
  induction noted generalizing c ds'' s with
  | nil =>
    rw [checkBodiesOf] at accepted
    cases accepted
    exact ⟨_, s, rfl, .nil⟩
  | @entryPoint _ _ _ resultNode _ _ _ params _ ds ds' vs fs isVoid _ ih =>
    obtain ⟨d', c₁, rest', hd, hrest, rfl⟩ := checkBodiesOf_function (.inr rfl) accepted
    have hbetween := h.of_frame (Check.checkFunction_frame h hd)
    have hglobals := (Check.checkFunction_frame h hd).globals
    have hresult : resultNode.kind.type? = some .void := by
      rw [isVoid]
      rfl
    obtain ⟨ps, func, s₁, -, hfunc, hcode⟩ := functionCode_of_checkFunction h valued (.inr rfl)
      hresult hd (checkBodiesOf_frame hbetween hrest) hscopes (returns d' List.mem_cons_self) s
    obtain ⟨parts, s₂, hparts, hothers⟩ := ih hbetween (by rwa [Context.names, hglobals]) hrest
      (fun d hd => returns d (List.mem_cons_of_mem _ hd)) s₁
    rw [hglobals] at hothers
    refine ⟨_, s₂, ?_, .entryPoint rfl rfl hcode hothers⟩
    rw [declarations, kind_of_checkFunction hd]
    dsimp only
    rw [step_bind hfunc, step_bind hparts, step_pure]
  | @function _ _ _ _ _ _ _ params _ sig ds ds' vs fs isResult isParams _ ih =>
    obtain ⟨d', c₁, rest', hd, hrest, rfl⟩ := checkBodiesOf_function (.inl rfl) accepted
    have hbetween := h.of_frame (Check.checkFunction_frame h hd)
    have hglobals := (Check.checkFunction_frame h hd).globals
    obtain ⟨ps, func, s₁, hbinds, hfunc, hcode⟩ := functionCode_of_checkFunction h valued
      (.inl rfl) isResult hd (checkBodiesOf_frame hbetween hrest) hscopes
      (returns d' List.mem_cons_self) s
    obtain ⟨parts, s₂, hparts, hothers⟩ := ih hbetween (by rwa [Context.names, hglobals]) hrest
      (fun d hd => returns d (List.mem_cons_of_mem _ hd)) s₁
    rw [hglobals] at hothers
    rw [← Check.parameterTypes_of_bindings isParams hbinds] at hcode
    refine ⟨_, s₂, ?_, .function rfl hcode hothers⟩
    rw [declarations, kind_of_checkFunction hd]
    dsimp only
    rw [step_bind hfunc, step_bind hparts, step_pure]
  | @global _ _ _ t name _ _ _ ds ds' vs fs isType _ ih =>
    obtain ⟨rest', hrest, rfl⟩ := checkBodiesOf_other (by simp) accepted
    obtain ⟨parts, s₂, hparts, hothers⟩ := ih h valued hrest
      (fun d hd => returns d (List.mem_cons_of_mem _ hd)) s
    have htag : env.scopes.globals.tag = utf8 "G" := by
      rw [hscopes, (checkBodiesOf_frame h hrest).globals, h.globalTag]
    refine ⟨_, s₂, ?_, .global rfl (Node.binding?_eq_some.mpr ⟨t, _, rfl, rfl, isType, rfl⟩)
      hothers⟩
    rw [declarations]
    dsimp only
    rw [step_bind (childOf_ok rfl s), step_bind (storageName_global htag s), step_bind hparts,
      step_pure]

theorem forM_ok_iff {α ε : Type} {g : α → Except ε Unit} {as : List α} :
    as.forM g = .ok () ↔ ∀ a ∈ as, g a = .ok () := by
  induction as with
  | nil => simp [pure, Except.pure]
  | cons a rest ih =>
    show (g a >>= fun _ => rest.forM g) = _ ↔ _
    rw [bind_ok_iff, List.forall_mem_cons]
    constructor
    · rintro ⟨⟨⟩, ha, hrest⟩
      exact ⟨ha, ih.mp hrest⟩
    · rintro ⟨ha, hrest⟩
      exact ⟨(), ha, ih.mpr hrest⟩

/-- The three rounds of an accepted program. -/
theorem checkProgram_ok {root : Node} {checked : Check.CheckedProgram}
    (accepted : Check.checkProgram root = .ok checked) :
    ∃ root' c c' ds, Check.collectGlobals .initial root = (.ok (), root', c) ∧
      checkBodiesOf c root'.children = (.ok (), ds, c') ∧
      (∀ d ∈ ds, Check.checkReturns c'.scopes d = .ok ()) ∧
      checked = ⟨{ root' with children := ds }, c'.scopes⟩ := by
  unfold Check.checkProgram Check.checkProgramIn Check.checkBodies at accepted
  rcases hcollect : Check.collectGlobals .initial root with ⟨_ | ⟨⟩, root', c⟩
  · simp [hcollect] at accepted
  · rcases hbodies : checkBodiesOf c root'.children with ⟨_ | ⟨⟩, ds, c'⟩
    · simp [hcollect, hbodies] at accepted
    · simp only [hcollect, hbodies] at accepted
      cases hreturns : Check.checkAllReturns c'.scopes { root' with children := ds } with
      | error e => simp [hreturns] at accepted
      | ok u =>
        simp only [hreturns] at accepted
        cases accepted
        exact ⟨root', c, c', ds, rfl, hbodies, forM_ok_iff.mp hreturns, rfl⟩

/-- A way to find by evaluation that a program is accepted. -/
theorem exists_checked_of_isOk {root : Node} (isOk : (Check.checkProgram root).isOk = true) :
    ∃ checked, Check.checkProgram root = .ok checked := by
  cases hcheck : Check.checkProgram root with
  | error f =>
    rw [hcheck] at isOk
    cases isOk
  | ok checked => exact ⟨checked, rfl⟩

theorem sampleProgram_accepted : ∃ checked, Check.checkProgram sampleProgram = .ok checked :=
  exists_checked_of_isOk (by decide +kernel)

theorem libraryFuncs_ok {scopes : Scopes} (hbuiltins : scopes.builtins = .builtins)
    (debug : Bool) : libraryFuncs ⟨scopes, debug⟩ .initial = .ok (library, .library) := by
  rcases scopes with ⟨builtins, globals, opened⟩
  obtain rfl : builtins = .builtins := hbuiltins
  rfl

theorem libraryImports_eq {scopes : Scopes} (hbuiltins : scopes.builtins = .builtins)
    (debug : Bool) : libraryImports ⟨scopes, debug⟩ = libraryImports ⟨.initial, false⟩ := by
  rcases scopes with ⟨builtins, globals, opened⟩
  obtain rfl : builtins = .builtins := hbuiltins
  rfl

/-- Checking the functions leaves the program-wide scopes as collecting the global
declarations left them. -/
theorem collected_of_checkProgram {root : Node} {checked : Check.CheckedProgram}
    (accepted : Check.checkProgram root = .ok checked) :
    ∃ root' c, Check.collectGlobals .initial root = (.ok (), root', c) ∧
      checked.scopes.builtins = .builtins ∧ checked.scopes.globals = c.scopes.globals := by
  obtain ⟨root', c, c', ds, hcollect, hbodies, -, rfl⟩ := checkProgram_ok accepted
  have hcollected := Check.Collected.of_collectGlobals hcollect
  have hframe := checkBodiesOf_frame hcollected.toBetween hbodies
  exact ⟨root', c, hcollect, hframe.builtins.trans hcollected.builtins, hframe.globals⟩

/-- The global declarations of a program that passed the checker have code, among the
variables and functions that they declare. -/
theorem declsCode_of_checkProgram {root : Node} {checked : Check.CheckedProgram}
    (accepted : Check.checkProgram root = .ok checked) (debug : Bool) :
    ∃ parts s, moduleOf ⟨checked.scopes, debug⟩ checked.tree .initial =
        .ok (moduleWith parts s, s) ∧
      DeclsCode checked.scopes.globals.vars checked.scopes.globals.funcs root.children
        checked.scopes.globals.vars checked.scopes.globals.funcs parts .library s := by
  obtain ⟨root', c, c', ds, hcollect, hbodies, hreturns, rfl⟩ := checkProgram_ok accepted
  have hcollected := Check.Collected.of_collectGlobals hcollect
  obtain ⟨decls, -, hdecls, -, rfl⟩ := Check.collectGlobals_ok hcollect
  obtain ⟨vs, fs, hnoted, hvars, hfuncs⟩ := Check.declsNoted_of_collectDeclarations hdecls
  have hframe := checkBodiesOf_frame hcollected.toBetween hbodies
  have hbuiltins : c'.scopes.builtins = .builtins := hframe.builtins.trans hcollected.builtins
  obtain rfl : c.scopes.globals.vars = vs := hvars
  obtain rfl : c.scopes.globals.funcs = fs := hfuncs
  have valued : c.names.Valued :=
    ⟨by simp [Context.names], hcollected.varTypes, hcollected.funcTypes⟩
  obtain ⟨parts, s, hparts, hcode⟩ : ∃ parts s,
      declarations ⟨c'.scopes, debug⟩ ds .library = .ok (parts, s) ∧ DeclsCode c.scopes.globals.vars
        c.scopes.globals.funcs root.children c.scopes.globals.vars c.scopes.globals.funcs parts
        .library s :=
    declsCode_of_checkBodiesOf hnoted hcollected.toBetween valued hbodies rfl hreturns .library
  refine ⟨parts, s, ?_, ?_⟩
  · unfold moduleOf
    rw [step_bind (libraryFuncs_ok hbuiltins debug), step_bind hparts]
    rw [libraryImports_eq hbuiltins debug]
    rfl
  · show DeclsCode c'.scopes.globals.vars c'.scopes.globals.funcs _ _ _ _ _ _
    rw [hframe.globals]
    exact hcode

/-- A program that passed the checker has a module. -/
theorem moduleCode_of_checkProgram {root : Node} {checked : Check.CheckedProgram}
    (accepted : Check.checkProgram root = .ok checked) (debug : Bool) :
    ∃ m s, moduleOf ⟨checked.scopes, debug⟩ checked.tree .initial = .ok (m, s) ∧
      ModuleCode root m s := by
  obtain ⟨parts, s, hmodule, hcode⟩ := declsCode_of_checkProgram accepted debug
  obtain ⟨root', c, hcollect, -, hglobals⟩ := collected_of_checkProgram accepted
  have hcollected := Check.Collected.of_collectGlobals hcollect
  obtain ⟨-, hkind, -⟩ := Check.collectGlobals_ok hcollect
  rw [hglobals] at hcode
  rcases root with ⟨kind, attr, loc, note, children⟩
  obtain rfl : kind = .globalDeclarations := hkind
  exact ⟨_, s, hmodule, .intro hcollected.varNames hcollected.funcNames hcollected.varTypes
    hcollected.funcTypes hcode⟩

/-- The module of a program, once its construction comes to an end. -/
theorem program_ok {root : Node} {m : Wat.Module Op} {s : State}
    (h : moduleOf env root .initial = .ok (m, s)) : program env root = .ok m := by
  unfold program
  rw [h]

/-- Lowering never fails on a program that passed the checker. -/
theorem program_of_checkProgram {root : Node} {checked : Check.CheckedProgram}
    (accepted : Check.checkProgram root = .ok checked) (debug : Bool) :
    ∃ m, program ⟨checked.scopes, debug⟩ checked.tree = .ok m := by
  obtain ⟨m, s, hmodule, -⟩ := moduleCode_of_checkProgram accepted debug
  exact ⟨m, program_ok hmodule⟩

end TreeWat.Lower
