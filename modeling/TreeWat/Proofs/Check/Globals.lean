import TreeWat.Check.Globals
import TreeWat.Proofs.Check.Lexical
set_option autoImplicit false

/-!
# Check: what collecting the global declarations leaves behind

`DeclCollected` lists every way in which a global declaration is registered, with
the note on its name and the context left behind.  `Collected` is what holds of the
context all the while: no local scope was opened, the names of variables and of
functions are each distinct, and every variable and parameter has a value type.
-/

namespace TreeWat

theorem Kind.hasValue_or_void_of_type? {kind : Kind} {ty : Ty} (h : kind.type? = some ty) :
    ty.hasValue = true ∨ ty = .void := by
  cases kind <;> simp only [type?, reduceCtorEq, Option.some.injEq] at h
  all_goals
    subst h
    simp [Ty.hasValue]

theorem Kind.eq_void_of_type? {kind : Kind} (h : kind.type? = some .void) : kind = .void := by
  cases kind with
  | void => rfl
  | _ => cases h

namespace Check

/-! ## The steps of the collection -/

theorem parameterTypes_nil {tys : List Ty} : parameterTypes [] = .ok tys ↔ tys = [] := by
  simp [parameterTypes, eq_comm]

theorem parameterTypes_cons {p : Node} {rest : List Node} {tys : List Ty} :
    parameterTypes (p :: rest) = .ok tys ↔
      ∃ t id ty tys', p.kind = .formalParameter ∧ p.children = [t, id] ∧
        t.kind.valueType? = some ty ∧ parameterTypes rest = .ok tys' ∧ tys = ty :: tys' := by
  rcases p with ⟨kind, attr, loc, note, children⟩
  rw [parameterTypes]
  simp only [bind_ok_iff, Node.child_ok_iff, valueTypeOf_ok_iff]
  constructor
  · rintro ⟨⟨⟩, hkind, ⟨⟩, hcount, t, hfirst, ty, hty, tys', hrest, heq⟩
    cases heq
    have hlength : children.length = 2 := Node.expectChildren_ok_iff.mp hcount
    match children, hlength with
    | [_, id], _ =>
      cases hfirst
      exact ⟨t, id, ty, tys', Node.expect_ok_iff.mp hkind, rfl, hty, hrest, rfl⟩
  · rintro ⟨t, id, ty, tys', hkind, rfl, hty, hrest, rfl⟩
    exact ⟨(), Node.expect_ok_iff.mpr hkind, (), rfl, t, rfl, ty, hty, tys', hrest, rfl⟩

/-- Parameters have value types. -/
theorem parameterTypes_hasValue {ps : List Node} {tys : List Ty}
    (h : parameterTypes ps = .ok tys) : ∀ ty ∈ tys, ty.hasValue = true := by
  induction ps generalizing tys with
  | nil =>
    rw [parameterTypes_nil.mp h]
    simp
  | cons p rest ih =>
    obtain ⟨t, id, ty, tys', -, -, hty, hrest, rfl⟩ := parameterTypes_cons.mp h
    intro ty' hmem
    rcases List.mem_cons.mp hmem with rfl | hmem
    · exact Kind.hasValue_of_valueType? hty
    · exact ih hrest ty' hmem

theorem functionHead_ok_iff {decl id : Node} {sig : Signature} :
    functionHead decl = .ok (id, sig) ↔
      ∃ resultNode params body, decl.children = [resultNode, id, params, body] ∧
        resultNode.kind.type? = some sig.result ∧ id.kind = .id ∧
        params.kind = .formalParameterList ∧ parameterTypes params.children = .ok sig.params := by
  rcases decl with ⟨kind, attr, loc, note, children⟩
  rcases sig with ⟨tys, result⟩
  unfold functionHead
  simp only [bind_ok_iff, Node.child_ok_iff, typeOf_ok_iff]
  constructor
  · rintro ⟨⟨⟩, hcount, r, hr, ty, hty, i, hi, ⟨⟩, hid, ps, hps, ⟨⟩, hlist, tys', htys, heq⟩
    cases heq
    have hlength : children.length = 4 := Node.expectChildren_ok_iff.mp hcount
    match children, hlength with
    | [_, _, _, body], _ =>
      cases hr
      cases hi
      cases hps
      exact ⟨r, ps, body, rfl, hty, Node.expect_ok_iff.mp hid, Node.expect_ok_iff.mp hlist, htys⟩
  · rintro ⟨r, ps, body, rfl, hty, hid, hlist, htys⟩
    exact ⟨(), rfl, r, rfl, result, hty, id, rfl, (), Node.expect_ok_iff.mpr hid, ps, rfl, (),
      Node.expect_ok_iff.mpr hlist, tys, htys, rfl⟩

theorem entryPointHead_ok_iff {decl id : Node} :
    entryPointHead decl = .ok id ↔
      ∃ resultNode params body, decl.children = [resultNode, id, params, body] ∧
        resultNode.kind = .void ∧ id.kind = .id := by
  rcases decl with ⟨kind, attr, loc, note, children⟩
  unfold entryPointHead
  simp only [bind_ok_iff, Node.child_ok_iff]
  constructor
  · rintro ⟨⟨⟩, hcount, r, hr, ⟨⟩, hvoid, i, hi, ⟨⟩, hid, heq⟩
    cases heq
    have hlength : children.length = 4 := Node.expectChildren_ok_iff.mp hcount
    match children, hlength with
    | [_, _, ps, body], _ =>
      cases hr
      cases hi
      exact ⟨r, ps, body, rfl, Node.expect_ok_iff.mp hvoid, Node.expect_ok_iff.mp hid⟩
  · rintro ⟨r, ps, body, rfl, hvoid, hid⟩
    exact ⟨(), rfl, r, rfl, (), Node.expect_ok_iff.mpr hvoid, id, rfl, (),
      Node.expect_ok_iff.mpr hid, rfl⟩

/-! ## Declarations -/

/-- The context with another scope of the user's declarations. -/
def Context.withGlobals (c : Context) (globals : Scope) : Context :=
  { c with scopes := { c.scopes with globals := globals } }

/-- How a global declaration is registered: the context, the declaration, the
declaration with the note on its name, and the context left behind. -/
inductive DeclCollected (c : Context) : Node → Node → Context → Prop where
  | entryPoint {attr loc note resultNode name nameLoc nameCh params body}
      (isVoid : resultNode.kind = .void) (first : c.scopes.globals.entryPoint = []) :
      DeclCollected c
        ⟨.entryPointDeclaration, attr, loc, note,
          [resultNode, ⟨.id, name, nameLoc, none, nameCh⟩, params, body]⟩
        ⟨.entryPointDeclaration, attr, loc, note,
          [resultNode, ⟨.id, name, nameLoc, some ⟨name ++ utf8 "()", some .globals⟩, nameCh⟩,
            params, body]⟩
        (c.withGlobals { c.scopes.globals with entryPoint := name })
  | function {attr loc note resultNode name nameLoc nameCh params body sig}
      (isResult : resultNode.kind.type? = some sig.result)
      (isList : params.kind = .formalParameterList)
      (isParams : parameterTypes params.children = .ok sig.params)
      (fresh : c.scopes.globals.binds name = false) :
      DeclCollected c
        ⟨.functionDeclaration, attr, loc, note,
          [resultNode, ⟨.id, name, nameLoc, none, nameCh⟩, params, body]⟩
        ⟨.functionDeclaration, attr, loc, note,
          [resultNode, ⟨.id, name, nameLoc, some ⟨sig.text, some .globals⟩, nameCh⟩,
            params, body]⟩
        (c.withGlobals { c.scopes.globals with funcs := c.scopes.globals.funcs ++ [(name, sig)] })
  | global {attr loc note t name nameLoc nameCh ty}
      (isType : t.kind.valueType? = some ty) (fresh : c.scopes.globals.binds name = false) :
      DeclCollected c
        ⟨.variableDeclaration, attr, loc, note, [t, ⟨.id, name, nameLoc, none, nameCh⟩]⟩
        ⟨.variableDeclaration, attr, loc, note,
          [t, ⟨.id, name, nameLoc, some ⟨ty.text, some .globals⟩, nameCh⟩]⟩
        (c.withGlobals { c.scopes.globals with vars := c.scopes.globals.vars ++ [(name, ty)] })

theorem noteName_ok_iff {c c' : Context} {decl id decl' : Node} {sig : Bytes} :
    noteName c decl id sig = (.ok (), decl', c') ↔
      id.note = none ∧ c' = c ∧ decl' = { decl with
        children := decl.children.set 1 { id with note := some ⟨sig, some .globals⟩ } } := by
  unfold noteName
  cases hnote : id.note with
  | none => simp [Node.annotate, hnote, eq_comm, and_comm]
  | some a => simp [Node.annotate, hnote]

theorem DeclCollected.of_collectDeclaration {c c' : Context} {decl decl' : Node}
    (h : collectDeclaration c decl = (.ok (), decl', c')) : DeclCollected c decl decl' c' := by
  rcases decl with ⟨kind, attr, loc, note, children⟩
  cases kind
  all_goals try simp [collectDeclaration] at h; done
  case entryPointDeclaration =>
    simp only [collectDeclaration] at h
    split at h
    · simp at h
    · rename_i id hhead
      obtain ⟨resultNode, params, body, rfl, isVoid, isId⟩ := entryPointHead_ok_iff.mp hhead
      split at h
      · simp at h
      · rename_i c₁ hentry
        obtain ⟨hnote, rfl, rfl⟩ := noteName_ok_iff.mp h
        rcases id with ⟨idKind, name, nameLoc, nameNote, nameCh⟩
        simp only at isId hnote
        subst isId hnote
        unfold Context.setEntryPoint Scope.setEntryPoint at hentry
        by_cases first : c.scopes.globals.entryPoint = []
        · simp only [Scopes.get, first, List.isEmpty_nil, Bool.not_true, Bool.false_eq_true,
            if_false] at hentry
          cases hentry
          exact .entryPoint isVoid first
        · simp [Scopes.get, first] at hentry
  case functionDeclaration =>
    simp only [collectDeclaration] at h
    split at h
    · simp at h
    · rename_i id sig hhead
      obtain ⟨resultNode, params, body, rfl, isResult, isId, isList, isParams⟩ :=
        functionHead_ok_iff.mp hhead
      split at h
      · simp at h
      · rename_i c₁ hdeclare
        obtain ⟨hnote, rfl, rfl⟩ := noteName_ok_iff.mp h
        rcases id with ⟨idKind, name, nameLoc, nameNote, nameCh⟩
        simp only at isId hnote
        subst isId hnote
        unfold Context.declareFunc Scope.declareFunc at hdeclare
        split at hdeclare
        · cases fresh : c.scopes.globals.binds name with
          | true => simp [Scopes.get, fresh] at hdeclare
          | false =>
            simp only [Scopes.get, fresh, Bool.false_eq_true, if_false] at hdeclare
            cases hdeclare
            exact .function isResult isList isParams fresh
        · simp at hdeclare
  case variableDeclaration =>
    simp only [collectDeclaration] at h
    split at h
    · simp at h
    · rename_i ty id hname
      obtain ⟨t, rfl, isType, isId⟩ := typedName_ok_iff.mp hname
      split at h
      · simp at h
      · rename_i c₁ hdeclare
        obtain ⟨fresh, rfl⟩ := Context.declare_ok_iff.mp hdeclare
        obtain ⟨hnote, rfl, rfl⟩ := noteName_ok_iff.mp h
        rcases id with ⟨idKind, name, nameLoc, nameNote, nameCh⟩
        simp only at isId hnote
        subst isId hnote
        exact .global isType fresh

theorem collectDeclarations_nil {c c' : Context} {ds' : List Node} :
    collectDeclarations c [] = (.ok (), ds', c') ↔ ds' = [] ∧ c' = c := by
  simp [collectDeclarations, eq_comm]

theorem collectDeclarations_cons {c c' : Context} {d : Node} {rest ds' : List Node} :
    collectDeclarations c (d :: rest) = (.ok (), ds', c') ↔
      ∃ d' c₁ rest', collectDeclaration c d = (.ok (), d', c₁) ∧
        collectDeclarations c₁ rest = (.ok (), rest', c') ∧ ds' = d' :: rest' := by
  rw [collectDeclarations]
  rcases collectDeclaration c d with ⟨_ | ⟨⟩, d', c₁⟩
  · simp
  · rcases h : collectDeclarations c₁ rest with ⟨o, rest', c₂⟩
    constructor
    · intro heq
      simp only [h] at heq
      cases heq
      exact ⟨d', c₁, rest', rfl, h, rfl⟩
    · rintro ⟨_, _, _, hd, hrest, rfl⟩
      cases hd
      simp only [hrest]

theorem collectGlobals_ok {c c' : Context} {root root' : Node}
    (h : collectGlobals c root = (.ok (), root', c')) :
    ∃ decls, root.kind = .globalDeclarations ∧
      collectDeclarations c root.children = (.ok (), decls, c') ∧
      c'.scopes.globals.entryPoint ≠ [] ∧ root' = { root with children := decls } := by
  unfold collectGlobals at h
  split at h
  · simp at h
  · rename_i hkind
    split at h
    · simp at h
    · rename_i decls c₁ hall
      split at h
      · simp at h
      · rename_i hentry
        cases h
        refine ⟨decls, Node.expect_ok_iff.mp hkind, hall, ?_, rfl⟩
        intro hnil
        rw [hnil] at hentry
        exact hentry rfl

/-- Global declarations, the same with the notes on their names, and the variables and
functions that they declare, in this order. -/
inductive DeclsNoted :
    List Node → List Node → List (Bytes × Ty) → List (Bytes × Signature) → Prop where
  | nil : DeclsNoted [] [] [] []
  | entryPoint {attr loc note resultNode name nameLoc nameCh params body ds ds' vs fs}
      (isVoid : resultNode.kind = .void) (others : DeclsNoted ds ds' vs fs) :
      DeclsNoted
        (⟨.entryPointDeclaration, attr, loc, note,
          [resultNode, ⟨.id, name, nameLoc, none, nameCh⟩, params, body]⟩ :: ds)
        (⟨.entryPointDeclaration, attr, loc, note,
          [resultNode, ⟨.id, name, nameLoc, some ⟨name ++ utf8 "()", some .globals⟩, nameCh⟩,
            params, body]⟩ :: ds') vs fs
  | function {attr loc note resultNode name nameLoc nameCh params body sig ds ds' vs fs}
      (isResult : resultNode.kind.type? = some sig.result)
      (isParams : parameterTypes params.children = .ok sig.params)
      (others : DeclsNoted ds ds' vs fs) :
      DeclsNoted
        (⟨.functionDeclaration, attr, loc, note,
          [resultNode, ⟨.id, name, nameLoc, none, nameCh⟩, params, body]⟩ :: ds)
        (⟨.functionDeclaration, attr, loc, note,
          [resultNode, ⟨.id, name, nameLoc, some ⟨sig.text, some .globals⟩, nameCh⟩,
            params, body]⟩ :: ds') vs ((name, sig) :: fs)
  | global {attr loc note t name nameLoc nameCh ty ds ds' vs fs}
      (isType : t.kind.valueType? = some ty) (others : DeclsNoted ds ds' vs fs) :
      DeclsNoted
        (⟨.variableDeclaration, attr, loc, note, [t, ⟨.id, name, nameLoc, none, nameCh⟩]⟩ :: ds)
        (⟨.variableDeclaration, attr, loc, note,
          [t, ⟨.id, name, nameLoc, some ⟨ty.text, some .globals⟩, nameCh⟩]⟩ :: ds')
        ((name, ty) :: vs) fs

theorem declsNoted_of_collectDeclarations {c c' : Context} {ds ds' : List Node}
    (collected : collectDeclarations c ds = (.ok (), ds', c')) :
    ∃ vs fs, DeclsNoted ds ds' vs fs ∧
      c'.scopes.globals.vars = c.scopes.globals.vars ++ vs ∧
      c'.scopes.globals.funcs = c.scopes.globals.funcs ++ fs := by
  induction ds generalizing c ds' with
  | nil =>
    obtain ⟨rfl, rfl⟩ := collectDeclarations_nil.mp collected
    exact ⟨[], [], .nil, by simp, by simp⟩
  | cons d rest ih =>
    obtain ⟨d', c₁, rest', hd, hrest, rfl⟩ := collectDeclarations_cons.mp collected
    obtain ⟨vs, fs, hnoted, hvars, hfuncs⟩ := ih hrest
    cases DeclCollected.of_collectDeclaration hd with
    | entryPoint isVoid _ => exact ⟨vs, fs, .entryPoint isVoid hnoted, hvars, hfuncs⟩
    | function isResult _ isParams _ =>
      refine ⟨vs, _, .function isResult isParams hnoted, hvars, ?_⟩
      rw [hfuncs]
      simp [Context.withGlobals]
    | global isType _ =>
      refine ⟨_, fs, .global isType hnoted, ?_, hfuncs⟩
      rw [hvars]
      simp [Context.withGlobals]

/-! ## What holds all the while -/

/-- A context in which only the program-wide scopes are open. -/
structure Between (c : Context) : Prop where
  stack : c.stack = [.globals, .builtins]
  builtins : c.scopes.builtins = .builtins
  globalVariant : c.scopes.globals.variant = .global
  globalTag : c.scopes.globals.tag = utf8 "G"

/-- What the collection of global declarations keeps. -/
structure Collected (c : Context) : Prop extends Between c where
  opened : c.scopes.opened = []
  varNames : (c.scopes.globals.vars.map Prod.fst).Nodup
  funcNames : (c.scopes.globals.funcs.map Prod.fst).Nodup
  varTypes : ∀ v ∈ c.scopes.globals.vars, v.2.hasValue = true
  funcTypes : ∀ v ∈ c.scopes.globals.funcs, v.2.Valued

theorem Collected.initial : Collected .initial := by
  refine ⟨⟨rfl, rfl, rfl, rfl⟩, rfl, ?_, ?_, ?_, ?_⟩ <;>
    simp [Context.initial, Scopes.initial, Scope.globals, Scope.empty]

/-- A list without repetition stays so under a new last element. -/
theorem nodup_concat {α : Type} {as : List α} {a : α} :
    (as ++ [a]).Nodup ↔ as.Nodup ∧ a ∉ as := by
  rw [List.nodup_append]
  constructor
  · rintro ⟨has, -, hdisj⟩
    exact ⟨has, fun hmem => hdisj a hmem a (by simp) rfl⟩
  · rintro ⟨has, hnew⟩
    refine ⟨has, by simp, ?_⟩
    rintro b hb a' ha' rfl
    rw [List.mem_singleton.mp ha'] at hb
    exact hnew hb

/-- A name that a scope does not bind is neither a variable nor a function of it. -/
theorem not_mem_of_binds {s : Scope} {name : Bytes} (fresh : s.binds name = false) :
    name ∉ s.vars.map Prod.fst ∧ name ∉ s.funcs.map Prod.fst := by
  unfold Scope.binds Scope.var? Scope.func? at fresh
  simp only [Bool.or_eq_false_iff, Option.isSome_eq_false_iff, Option.isNone_iff_eq_none,
    List.lookup_eq_none_iff] at fresh
  obtain ⟨⟨hvars, hfuncs⟩, -⟩ := fresh
  constructor
  · intro hmem
    obtain ⟨v, hv, rfl⟩ := List.mem_map.mp hmem
    simpa using hvars v hv
  · intro hmem
    obtain ⟨v, hv, rfl⟩ := List.mem_map.mp hmem
    simpa using hfuncs v hv

/-- One declaration keeps it. -/
theorem Collected.step {c c' : Context} {decl decl' : Node} (h : Collected c)
    (step : DeclCollected c decl decl' c') : Collected c' := by
  cases step with
  | entryPoint isVoid first =>
    exact ⟨⟨h.stack, h.builtins, h.globalVariant, h.globalTag⟩, h.opened, h.varNames, h.funcNames,
      h.varTypes, h.funcTypes⟩
  | @function _ _ _ _ name _ _ _ _ sig isResult isList isParams fresh =>
    refine ⟨⟨h.stack, h.builtins, h.globalVariant, h.globalTag⟩, h.opened, h.varNames, ?_,
      h.varTypes, ?_⟩
    · have hnew := (not_mem_of_binds fresh).2
      simp only [Context.withGlobals, List.map_append, List.map_cons, List.map_nil]
      exact nodup_concat.mpr ⟨h.funcNames, hnew⟩
    · intro v hv
      simp only [Context.withGlobals, List.mem_append, List.mem_singleton] at hv
      rcases hv with hv | rfl
      · exact h.funcTypes v hv
      · exact ⟨parameterTypes_hasValue isParams, Kind.hasValue_or_void_of_type? isResult⟩
  | @global _ _ _ _ name _ _ ty isType fresh =>
    refine ⟨⟨h.stack, h.builtins, h.globalVariant, h.globalTag⟩, h.opened, ?_, h.funcNames, ?_,
      h.funcTypes⟩
    · have hnew := (not_mem_of_binds fresh).1
      simp only [Context.withGlobals, List.map_append, List.map_cons, List.map_nil]
      exact nodup_concat.mpr ⟨h.varNames, hnew⟩
    · intro v hv
      simp only [Context.withGlobals, List.mem_append, List.mem_singleton] at hv
      rcases hv with hv | rfl
      · exact h.varTypes v hv
      · exact Kind.hasValue_of_valueType? isType

theorem Collected.of_collectDeclarations {c c' : Context} {ds ds' : List Node} (h : Collected c)
    (collected : collectDeclarations c ds = (.ok (), ds', c')) : Collected c' := by
  induction ds generalizing c ds' with
  | nil =>
    obtain ⟨-, rfl⟩ := collectDeclarations_nil.mp collected
    exact h
  | cons d rest ih =>
    obtain ⟨d', c₁, rest', hd, hrest, -⟩ := collectDeclarations_cons.mp collected
    exact ih (h.step (.of_collectDeclaration hd)) hrest

theorem Collected.of_collectGlobals {c : Context} {root root' : Node}
    (collected : collectGlobals .initial root = (.ok (), root', c)) : Collected c := by
  obtain ⟨decls, -, hall, -, -⟩ := collectGlobals_ok collected
  exact Collected.initial.of_collectDeclarations hall

end Check

end TreeWat
