import TreeWat.Proofs.Check.Globals
import TreeWat.Proofs.Check.Rules
set_option autoImplicit false

/-!
# Check: functions keep the rules exactly if they are accepted

Between two functions only the program-wide scopes are open.  Entering a function,
declaring its parameters and checking the direct statements of its body each move
the names along; the two run lemmas `checkParameters_run` and `checkBody_run` say by
how much.  From them and their converses follows the comparison of `checkFunction`
with `FunctionObeys`.
-/

namespace TreeWat.Check

variable {f : FunctionScope} {c c' : Context} {Γ : Names}

/-! ## Entering a function -/

/-- The scope of the function that is checked next. -/
def Context.nextFunction (c : Context) (loc : Location) (result : Ty) : FunctionScope :=
  ⟨c.scopes.opened.length, utf8 "L" ++ Bytes.ofNat (c.tags + 1), loc, result⟩

/-- The names at the start of a function: none of its own. -/
def Context.names (c : Context) : Names :=
  ⟨[], c.scopes.globals.vars, c.scopes.globals.funcs⟩

theorem Between.enter (h : Between c) (loc : Location) (result : Ty) :
    Inside (c.nextFunction loc result) (c.enter fun tag => .function tag loc result).1 [] false
      c.names where
  stack := by simp [Context.enter, Context.push, Scopes.add, h.stack, Context.nextFunction]
  builtins := h.builtins
  globalVariant := h.globalVariant
  globalVars := rfl
  globalFuncs := rfl
  function := by
    simp [Context.enter, Context.push, Scopes.add, Context.nextFunction, Context.names,
      FunctionScope.scope, Scope.function, Scope.empty]
  nested := by simp
  loops := by simp

theorem Between.of_frame (h : Between c) {k : Nat} (hframe : Frame k c c') : Between c' where
  stack := hframe.stack.trans h.stack
  builtins := hframe.builtins.trans h.builtins
  globalVariant := by rw [hframe.globals, h.globalVariant]
  globalTag := by rw [hframe.globals, h.globalTag]

/-! ## Parameters -/

theorem checkParameters_run {ps ps' : List Node} (h : Inside f c [] false Γ)
    (distinct : (Γ.locals.map Prod.fst).Nodup)
    (accepted : checkParameters (.opened f.number) c ps = (.ok (), ps', c')) :
    ∃ params, (∀ p ∈ ps, p.kind = .formalParameter) ∧ ps.mapM Node.binding? = some params ∧
      ps'.mapM Node.binding? = some params ∧ ((Γ.locals ++ params).map Prod.fst).Nodup ∧
      Inside f c' [] false (Γ.declareAll params) ∧ Frame f.number c c' := by
  induction ps generalizing c Γ ps' with
  | nil =>
    obtain ⟨rfl, rfl⟩ := checkParameters_nil.mp accepted
    exact ⟨[], by simp, rfl, rfl, by simpa using distinct, by simpa using h, .refl _ _⟩
  | cons p rest ih =>
    obtain ⟨p', c₁, rest', hp, hrest, rfl⟩ := checkParameters_cons.mp accepted
    obtain ⟨t, id, ty, hkind, hch, isType, isId, -, fresh, rfl, rfl⟩ :=
      checkParameter_ok_iff.mp hp
    rw [h.binds_eq_false_iff] at fresh
    have hbinding : p.binding? = some (id.attr, ty) :=
      Node.binding?_eq_some.mpr ⟨t, id, hch, isId, isType, rfl⟩
    have hnoted : Node.binding? { p with
        children := [t, { id with note := some ⟨ty.text, some (.opened f.number)⟩ }] } =
          some (id.attr, ty) :=
      Node.binding?_eq_some.mpr ⟨t, _, rfl, isId, isType, rfl⟩
    have hdistinct : ((Γ.declare id.attr ty).locals.map Prod.fst).Nodup := by
      simp only [Names.declare, List.map_append, List.map_cons, List.map_nil]
      exact nodup_concat.mpr ⟨distinct, fresh⟩
    obtain ⟨params, hkinds, hbindings, hnotes, hnodup, hin, hframe⟩ :=
      ih (h.bind id.attr ty) hdistinct hrest
    refine ⟨(id.attr, ty) :: params, ?_, ?_, ?_, ?_, ?_, ?_⟩
    · intro q hq
      rcases List.mem_cons.mp hq with rfl | hq
      · exact hkind
      · exact hkinds q hq
    · exact bindings_cons.mpr ⟨_, params, hbinding, hbindings, rfl⟩
    · exact bindings_cons.mpr ⟨_, params, hnoted, hnotes, rfl⟩
    · simpa [Names.declare] using hnodup
    · simpa using hin
    · exact (Frame.bind f.number c id.attr ty).trans hframe

theorem checkParameters_of_bindings {ps : List Node} {params : List (Bytes × Ty)}
    (isParameter : ∀ p ∈ ps, p.kind = .formalParameter) (plain : ∀ p ∈ ps, p.Unannotated)
    (binds : ps.mapM Node.binding? = some params)
    (distinct : ((Γ.locals ++ params).map Prod.fst).Nodup) (h : Inside f c [] false Γ) :
    ∃ ps' c', checkParameters (.opened f.number) c ps = (.ok (), ps', c') := by
  induction ps generalizing c Γ params with
  | nil => exact ⟨[], c, checkParameters_nil.mpr ⟨rfl, rfl⟩⟩
  | cons p rest ih =>
    obtain ⟨⟨name, ty⟩, params', hbinding, hbindings, rfl⟩ := bindings_cons.mp binds
    obtain ⟨t, id, hch, isId, isType, rfl⟩ := Node.binding?_eq_some.mp hbinding
    have hid : id ∈ p.children := by simp [hch]
    have hnote : id.note = none := ((plain p List.mem_cons_self).child hid).note
    have fresh : id.attr ∉ Γ.locals.map Prod.fst := by
      intro hmem
      rw [List.map_append, List.nodup_append] at distinct
      exact distinct.2.2 _ hmem _ (by simp) rfl
    have hp := checkParameter_ok_iff.mpr ⟨t, id, ty, isParameter p List.mem_cons_self, hch, isType,
      isId, hnote, h.binds_eq_false_iff.mpr fresh, rfl, rfl⟩
    obtain ⟨rest', c₂, hrest⟩ := ih (fun q hq => isParameter q (List.mem_cons_of_mem _ hq))
      (fun q hq => plain q (List.mem_cons_of_mem _ hq)) hbindings
      (by simpa [Names.declare] using distinct) (h.bind id.attr ty)
    exact ⟨_, c₂, checkParameters_cons.mpr ⟨_, _, rest', hp, hrest, rfl⟩⟩

/-- The types collected with the global declarations are those of the parameters. -/
theorem parameterTypes_of_bindings {ps : List Node} {params : List (Bytes × Ty)} {tys : List Ty}
    (types : parameterTypes ps = .ok tys) (binds : ps.mapM Node.binding? = some params) :
    tys = params.map Prod.snd := by
  induction ps generalizing params tys with
  | nil =>
    cases binds
    exact parameterTypes_nil.mp types
  | cons p rest ih =>
    obtain ⟨t, id, ty, tys', -, hch, hty, hrest, rfl⟩ := parameterTypes_cons.mp types
    obtain ⟨⟨name, ty'⟩, vs, hp, hvs, rfl⟩ := bindings_cons.mp binds
    obtain ⟨t', id', hch', -, hty', -⟩ := Node.binding?_eq_some.mp hp
    rw [hch] at hch'
    cases hch'
    rw [List.map_cons, ← ih hrest hvs, Option.some.inj (hty.symm.trans hty')]

/-! ## The outermost block -/

/-- A declaration directly in the function is accepted if its name is new there. -/
theorem checkDeclaration_ok (h : Inside f c [] false Γ) {s s' : Node}
    (isDeclaration : s.kind = .variableDeclaration)
    (accepted : checkStatementIn none c s = (.ok (), s', c')) :
    ∃ name ty, s.binding? = some (name, ty) ∧ name ∉ Γ.locals.map Prod.fst ∧
      s'.kind = .variableDeclaration ∧ c' = c.bind (.opened f.number) name ty := by
  cases checkStatementIn_ok_iff.mp accepted with
  | @declaration _ _ _ t name nameLoc nameCh ty top isType isTop inFunction fresh =>
    obtain ⟨-, rfl⟩ := h.top_variant isTop inFunction
    exact ⟨name, ty, Node.binding?_eq_some.mpr ⟨t, _, rfl, rfl, isType, rfl⟩,
      h.binds_eq_false_iff.mp fresh, rfl, rfl⟩
  | call isCall _ =>
    rw [isCall] at isDeclaration
    cases isDeclaration
  | _ => simp at isDeclaration

theorem checkDeclaration_of_binding (h : Inside f c [] false Γ) {s : Node} {name : Bytes}
    {ty : Ty} (isDeclaration : s.kind = .variableDeclaration) (plain : s.Unannotated)
    (binds : s.binding? = some (name, ty)) (fresh : name ∉ Γ.locals.map Prod.fst) :
    ∃ s', checkStatementIn none c s = (.ok (), s', c.bind (.opened f.number) name ty) := by
  rcases s with ⟨kind, attr, loc, note, children⟩
  obtain ⟨t, id, hch, isId, isType, rfl⟩ := Node.binding?_eq_some.mp binds
  rcases id with ⟨idKind, name, nameLoc, nameNote, nameCh⟩
  simp only at isDeclaration hch isId fresh
  subst isDeclaration hch isId
  obtain rfl : nameNote = none := (plain.child (List.mem_cons_of_mem _ List.mem_cons_self)).note
  have inFunction : (c.scopes.get (.opened f.number)).variant = .function := by
    rw [h.get_function]
    rfl
  exact ⟨_, checkStatementIn_ok_iff.mpr
    (.declaration isType h.top_function inFunction (h.binds_eq_false_iff.mpr fresh))⟩

theorem checkBody_run {ss ss' : List Node} (h : Inside f c [] false Γ)
    (distinct : (Γ.locals.map Prod.fst).Nodup)
    (accepted : checkStatements c ss = (.ok (), ss', c')) :
    BodyObeys f.result Γ ss ∧ ((Γ.locals ++ declaredBy ss).map Prod.fst).Nodup ∧
      Inside f c' [] false (Γ.declareAll (declaredBy ss)) ∧ Frame f.number c c' := by
  induction ss generalizing c Γ ss' with
  | nil =>
    obtain ⟨-, rfl⟩ := checkStatements_nil.mp accepted
    exact ⟨.nil, by simpa [declaredBy_nil] using distinct, by simpa [declaredBy_nil] using h,
      .refl _ _⟩
  | cons s rest ih =>
    obtain ⟨s', c₁, rest', hs, hrest, -⟩ := checkStatements_cons.mp accepted
    by_cases isDeclaration : s.kind = .variableDeclaration
    · obtain ⟨name, ty, hbinding, fresh, -, rfl⟩ := checkDeclaration_ok h isDeclaration hs
      have hdistinct : ((Γ.declare name ty).locals.map Prod.fst).Nodup := by
        simp only [Names.declare, List.map_append, List.map_cons, List.map_nil]
        exact nodup_concat.mpr ⟨distinct, fresh⟩
      obtain ⟨hobeys, hnodup, hin, hframe⟩ := ih (h.bind name ty) hdistinct hrest
      rw [declaredBy_declaration isDeclaration hbinding]
      refine ⟨.declaration isDeclaration hbinding hobeys, ?_, ?_, ?_⟩
      · simpa [Names.declare] using hnodup
      · simpa using hin
      · exact (Frame.bind f.number c name ty).trans hframe
    · have hobeys := obeys_of_checkStatementIn h (by simp) (fun _ => isDeclaration) hs
      have hfirst := checkStatementIn_frame h (by simp) (fun _ => isDeclaration) hs
      obtain ⟨hrest, hnodup, hin, hframe⟩ := ih (h.of_frame hfirst) distinct hrest
      rw [declaredBy_other isDeclaration]
      exact ⟨.statement hobeys hrest, hnodup, hin,
        (hfirst.mono (Nat.le_of_lt h.number_lt)).trans hframe⟩

theorem checkBody_of_obeys {ss : List Node} (obeys : BodyObeys f.result Γ ss)
    (plain : ∀ s ∈ ss, s.Unannotated)
    (distinct : ((Γ.locals ++ declaredBy ss).map Prod.fst).Nodup)
    (h : Inside f c [] false Γ) : ∃ ss' c', checkStatements c ss = (.ok (), ss', c') := by
  induction obeys generalizing c with
  | nil => exact ⟨[], c, checkStatements_nil.mpr ⟨rfl, rfl⟩⟩
  | @declaration Γ s rest name ty isDeclaration binds _ ih =>
    rw [declaredBy_declaration isDeclaration binds] at distinct
    have fresh : name ∉ Γ.locals.map Prod.fst := by
      intro hmem
      rw [List.map_append, List.nodup_append] at distinct
      exact distinct.2.2 _ hmem _ (by simp) rfl
    obtain ⟨s', hs⟩ := checkDeclaration_of_binding h isDeclaration (plain s List.mem_cons_self)
      binds fresh
    obtain ⟨rest', c₂, hrest⟩ := ih (fun t ht => plain t (List.mem_cons_of_mem _ ht))
      (by simpa [Names.declare] using distinct) (h.bind name ty)
    exact ⟨_, c₂, checkStatements_cons.mpr ⟨s', _, rest', hs, hrest, rfl⟩⟩
  | @statement Γ s rest first _ ih =>
    have hkind := kind_ne_of_obeys first
    rw [declaredBy_other hkind] at distinct
    obtain ⟨s', c₁, hs⟩ : ∃ s' c₁, checkStatementIn none c s = (.ok (), s', c₁) :=
      checkStatementIn_of_obeys first rfl (plain s List.mem_cons_self) h
    have hframe := checkStatementIn_frame h (by simp) (fun _ => hkind) hs
    obtain ⟨rest', c₂, hrest⟩ := ih (fun t ht => plain t (List.mem_cons_of_mem _ ht)) distinct
      (h.of_frame hframe)
    exact ⟨_, c₂, checkStatements_cons.mpr ⟨s', c₁, rest', hs, hrest, rfl⟩⟩

/-! ## The whole function -/

/-- What an accepted function is made of. -/
theorem functionObeys_of_checkFunction (h : Between c) {fn fn' : Node}
    (accepted : checkFunction c fn = (.ok (), fn', c')) :
    FunctionObeys c.scopes.globals.vars c.scopes.globals.funcs fn := by
  cases checkFunction_ok_iff.mp accepted with
  | @intro _ _ loc _ _ _ _ _ _ _ _ _ _ _ _ result _ _ _ isInside isResult acceptedParams
      acceptedBody =>
    subst isInside
    obtain ⟨params, hkinds, hbindings, -, hnodup, hin, -⟩ :=
      checkParameters_run (h.enter loc result) (by simp [Context.names]) acceptedParams
    obtain ⟨hobeys, hdistinct, -, -⟩ := checkBody_run hin hnodup acceptedBody
    exact .intro isResult hkinds hbindings hdistinct hobeys

theorem checkFunction_frame (h : Between c) {fn fn' : Node}
    (accepted : checkFunction c fn = (.ok (), fn', c')) : Frame c.scopes.opened.length c c' := by
  cases checkFunction_ok_iff.mp accepted with
  | @intro _ _ loc _ _ _ _ _ _ _ _ _ _ _ _ result _ _ _ isInside _ acceptedParams acceptedBody =>
    subst isInside
    obtain ⟨params, -, -, -, hnodup, hin, hframe₁⟩ :=
      checkParameters_run (h.enter loc result) (by simp [Context.names]) acceptedParams
    obtain ⟨-, -, -, hframe₂⟩ := checkBody_run hin hnodup acceptedBody
    exact .of_enter (hframe₁.trans hframe₂)

/-- After the global declarations of a program were collected, a function or entry
point without notes on its parameters and its body is accepted exactly if it keeps
the rules of the language. -/
theorem checkFunction_ok_iff_obeys {root root' decl : Node}
    (collected : collectGlobals .initial root = (.ok (), root', c))
    (plain : ∀ part ∈ decl.children.drop 2, part.Unannotated) :
    (checkFunction c decl).1 = .ok () ↔
      FunctionObeys c.scopes.globals.vars c.scopes.globals.funcs decl := by
  have hbetween : Between c := (Collected.of_collectGlobals collected).toBetween
  constructor
  · intro hok
    exact functionObeys_of_checkFunction hbetween (Prod.ext hok rfl)
  · intro hobeys
    cases hobeys with
    | @intro kind attr loc note resultNode name listAttr listLoc listNote ps bodyAttr bodyLoc
        bodyNote ss result params isResult isParameter binds distinct body =>
      have hlist := plain _ List.mem_cons_self
      have hbody := plain _ (List.mem_cons_of_mem _ List.mem_cons_self)
      obtain rfl : bodyNote = none := hbody.note
      have henter := hbetween.enter loc result
      have hnodup : ((c.names.locals ++ params).map Prod.fst).Nodup := by
        rw [List.map_append, List.nodup_append] at distinct
        exact distinct.1
      obtain ⟨ps', c₁, hps⟩ := checkParameters_of_bindings isParameter
        (fun p hp => hlist.child hp) binds hnodup henter
      obtain ⟨params', -, hparams', -, -, hin, -⟩ :=
        checkParameters_run henter (by simp [Context.names]) hps
      obtain rfl : params' = params := Option.some.inj (hparams'.symm.trans binds)
      obtain ⟨ss', c₂, hss⟩ := checkBody_of_obeys body (fun s hs => hbody.child hs) distinct hin
      exact congrArg Prod.fst (checkFunction_ok_iff.mpr (.intro rfl isResult hps hss))

/-- A function with a loop, a call of itself and an early return keeps the rules. -/
theorem functionObeys_triangle :
    collectGlobals .initial sampleProgram =
        (.ok (), (collectGlobals .initial sampleProgram).2.1,
          (collectGlobals .initial sampleProgram).2.2) ∧
      (∀ part ∈ sampleFunction.children.drop 2, part.Unannotated) ∧
      FunctionObeys [(utf8 "calls", .int)] [(utf8 "triangle", ⟨[.int, .boolean], .int⟩)]
        sampleFunction := by
  have collected : collectGlobals .initial sampleProgram =
      (.ok (), (collectGlobals .initial sampleProgram).2.1,
        (collectGlobals .initial sampleProgram).2.2) := Prod.ext rfl rfl
  have plain : ∀ part ∈ sampleFunction.children.drop 2, part.Unannotated := by decide
  exact ⟨collected, plain, (checkFunction_ok_iff_obeys collected plain).mp rfl⟩

end TreeWat.Check
