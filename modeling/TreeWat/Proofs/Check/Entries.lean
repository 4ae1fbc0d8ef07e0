import TreeWat.Proofs.Check.Globals
set_option autoImplicit false

/-!
# Check: which declarations fit together

The collection of global declarations goes through them in order and stops at the first
failure.  Which failure comes first changes with the order.  That there is one does not: a
list of declarations can be entered exactly if each is well formed, the names are distinct
and there is one entry point at most.

The names of entry points are left out of this at one place: a name is refused if the entry
point already has it, but not the other way around.  So `GlobalEntry.allFit_iff` requires the names
of entry points to be apart from the others.
-/

namespace TreeWat

/-! ## What declarations enter -/

/-- What a global declaration enters into the scope of the user's declarations. -/
inductive GlobalEntry where
  | entryPoint (name : Bytes)
  | function (name : Bytes) (sig : Signature)
  | global (name : Bytes) (ty : Ty)

namespace GlobalEntry

/-- Whether the scope takes the entry. -/
def Fits (s : Scope) : GlobalEntry → Prop
  | .entryPoint _ => s.entryPoint = []
  | .function name _ => s.binds name = false
  | .global name _ => s.binds name = false

/-- The scope with the entry. -/
def into (s : Scope) : GlobalEntry → Scope
  | .entryPoint name => { s with entryPoint := name }
  | .function name sig => { s with funcs := s.funcs ++ [(name, sig)] }
  | .global name ty => { s with vars := s.vars ++ [(name, ty)] }

/-- The kind of the declaration. -/
def kind : GlobalEntry → Kind
  | .entryPoint _ => .entryPointDeclaration
  | .function _ _ => .functionDeclaration
  | .global _ _ => .variableDeclaration

/-- The name that is declared. -/
def name : GlobalEntry → Bytes
  | .entryPoint name => name
  | .function name _ => name
  | .global name _ => name

/-- The name of an entry point. -/
def mainName? : GlobalEntry → Option Bytes
  | .entryPoint name => some name
  | _ => none

/-- The name of a function or a variable. -/
def boundName? : GlobalEntry → Option Bytes
  | .function name _ => some name
  | .global name _ => some name
  | .entryPoint _ => none

def var? : GlobalEntry → Option (Bytes × Ty)
  | .global name ty => some (name, ty)
  | _ => none

def func? : GlobalEntry → Option (Bytes × Signature)
  | .function name sig => some (name, sig)
  | _ => none

/-- The scope takes the entries one after the other. -/
def AllFit : Scope → List GlobalEntry → Prop
  | _, [] => True
  | s, e :: rest => e.Fits s ∧ AllFit (e.into s) rest

theorem into_variant (s : Scope) (e : GlobalEntry) : (e.into s).variant = s.variant := by
  cases e <;> rfl

theorem vars_foldl (s : Scope) (es : List GlobalEntry) :
    (es.foldl into s).vars = s.vars ++ es.filterMap var? := by
  induction es generalizing s with
  | nil => simp
  | cons e rest ih =>
    rw [List.foldl_cons, ih]
    cases e <;> simp [into, var?, List.filterMap_cons]

theorem funcs_foldl (s : Scope) (es : List GlobalEntry) :
    (es.foldl into s).funcs = s.funcs ++ es.filterMap func? := by
  induction es generalizing s with
  | nil => simp
  | cons e rest ih =>
    rw [List.foldl_cons, ih]
    cases e <;> simp [into, func?, List.filterMap_cons]

/-- The last entry point stays. -/
theorem entryPoint_foldl (s : Scope) (es : List GlobalEntry) :
    (es.foldl into s).entryPoint = ((es.filterMap mainName?).getLast?).getD s.entryPoint := by
  induction es generalizing s with
  | nil => rfl
  | cons e rest ih =>
    rw [List.foldl_cons, ih]
    cases e with
    | entryPoint name =>
      have hmain : (GlobalEntry.entryPoint name :: rest).filterMap mainName?
          = name :: rest.filterMap mainName? := rfl
      rw [hmain, List.getLast?_cons]
      rfl
    | function name sig => rfl
    | global name ty => rfl

end GlobalEntry

/-- The entry point of a scope, if there is one. -/
def Scope.mains (s : Scope) : List Bytes :=
  if s.entryPoint = [] then [] else [s.entryPoint]

theorem Scope.binds_eq_false_iff {s : Scope} {name : Bytes} :
    s.binds name = false ↔ name ∉ s.varNames ++ s.funcNames ∧ name ∉ s.mains := by
  unfold Scope.binds Scope.var? Scope.func? Scope.varNames Scope.funcNames Scope.mains
  simp only [Bool.or_eq_false_iff, Option.isSome_eq_false_iff, Option.isNone_iff_eq_none,
    lookup_eq_none_iff_not_mem, List.mem_append, not_or]
  refine and_congr Iff.rfl ?_
  by_cases hmain : s.entryPoint = []
  · simp [hmain]
  · rw [if_neg hmain, BEq.comm]
    simp [hmain]

namespace GlobalEntry

/-- What a function or a variable adds to the names that are taken. -/
theorem mem_names_into {s : Scope} {e : GlobalEntry} {name : Bytes}
    (binds : boundName? e = some name) (other : Bytes) :
    other ∈ (e.into s).varNames ++ (e.into s).funcNames ↔
      other ∈ s.varNames ++ s.funcNames ∨ other = name := by
  cases e with
  | entryPoint => cases binds
  | function name' sig =>
    cases binds
    simp [into, Scope.varNames, Scope.funcNames, or_assoc]
  | global name' ty =>
    cases binds
    simp [into, Scope.varNames, Scope.funcNames, or_assoc, or_comm]

/-- No name is bound twice, and there is one entry point at most. -/
structure Distinct (s : Scope) (es : List GlobalEntry) : Prop where
  fresh : ∀ name ∈ es.filterMap boundName?, name ∉ s.varNames ++ s.funcNames
  names : (es.filterMap boundName?).Nodup
  mains : (s.mains ++ es.filterMap mainName?).length ≤ 1

/-- A function or a variable in front of other entries. -/
theorem distinct_cons_bound {s : Scope} {e : GlobalEntry} {rest : List GlobalEntry} {name : Bytes}
    (binds : boundName? e = some name) (noMain : mainName? e = none)
    (sameMains : (e.into s).mains = s.mains) (other : name ∉ s.mains) :
    Distinct s (e :: rest) ↔ s.binds name = false ∧ Distinct (e.into s) rest := by
  have hnames := mem_names_into (s := s) binds
  have hbound := List.filterMap_cons_some (l := rest) binds
  have hmain := List.filterMap_cons_none (l := rest) noMain
  rw [Scope.binds_eq_false_iff]
  constructor
  · rintro ⟨fresh, names, mains⟩
    rw [hbound, List.forall_mem_cons] at fresh
    rw [hbound, List.nodup_cons] at names
    rw [hmain] at mains
    refine ⟨⟨fresh.1, other⟩, fun found hfound htaken => ?_, names.2, sameMains ▸ mains⟩
    rcases (hnames found).mp htaken with htaken | rfl
    · exact fresh.2 found hfound htaken
    · exact names.1 hfound
  · rintro ⟨⟨hnew, -⟩, fresh, names, mains⟩
    refine ⟨?_, ?_, ?_⟩
    · rw [hbound, List.forall_mem_cons]
      exact ⟨hnew, fun found hfound htaken => fresh found hfound ((hnames found).mpr (.inl htaken))⟩
    · rw [hbound, List.nodup_cons]
      exact ⟨fun hfound => fresh name hfound ((hnames name).mpr (.inr rfl)), names⟩
    · rw [hmain, ← sameMains]
      exact mains

theorem mains_entryPoint {s : Scope} {name : Bytes} (named : name ≠ []) :
    (into s (.entryPoint name)).mains = [name] := by
  simp [Scope.mains, into, named]

/-- An entry point with a name in front of other entries. -/
theorem distinct_cons_entryPoint {s : Scope} {rest : List GlobalEntry} {name : Bytes}
    (named : name ≠ []) :
    Distinct s (.entryPoint name :: rest) ↔
      s.entryPoint = [] ∧ Distinct (into s (.entryPoint name)) rest := by
  have hbound : (GlobalEntry.entryPoint name :: rest).filterMap boundName?
      = rest.filterMap boundName? := rfl
  have hmain : (GlobalEntry.entryPoint name :: rest).filterMap mainName?
      = name :: rest.filterMap mainName? := rfl
  have hmains := mains_entryPoint (s := s) named
  constructor
  · rintro ⟨fresh, names, mains⟩
    rw [hmain] at mains
    have hfirst : s.entryPoint = [] := by
      by_cases hentry : s.entryPoint = []
      · exact hentry
      · simp [Scope.mains, hentry] at mains
    have hnone : s.mains = [] := if_pos hfirst
    rw [hnone] at mains
    exact ⟨hfirst, fresh, names, hmains ▸ mains⟩
  · rintro ⟨hfirst, fresh, names, mains⟩
    have hnone : s.mains = [] := if_pos hfirst
    rw [hmains] at mains
    exact ⟨fresh, names, by rw [hnone, hmain]; exact mains⟩

/-- Entries fit exactly if no name is bound twice and there is one entry point at most.  The
names of entry points are apart from the others here. -/
theorem allFit_iff {s : Scope} {es : List GlobalEntry}
    (apart : ∀ name ∈ s.mains ++ es.filterMap mainName?,
      name ≠ [] ∧ name ∉ es.filterMap boundName?) :
    AllFit s es ↔ Distinct s es := by
  induction es generalizing s with
  | nil =>
    have hmains : s.mains.length ≤ 1 := by
      unfold Scope.mains
      split <;> simp
    exact ⟨fun _ => ⟨by simp, by simp, by simpa using hmains⟩, fun _ => trivial⟩
  | cons e rest ih =>
    -- a function or a variable leaves the entry point of the scope as it is
    have bound : ∀ name, boundName? e = some name → mainName? e = none →
        (e.into s).mains = s.mains →
        (s.binds name = false ∧ AllFit (e.into s) rest ↔ Distinct s (e :: rest)) := by
      intro name binds noMain sameMains
      rw [List.filterMap_cons_some binds, List.filterMap_cons_none noMain] at apart
      have other : name ∉ s.mains := fun hmem =>
        (apart name (List.mem_append_left _ hmem)).2 List.mem_cons_self
      have apart' : ∀ found ∈ (e.into s).mains ++ rest.filterMap mainName?,
          found ≠ [] ∧ found ∉ rest.filterMap boundName? := by
        rw [sameMains]
        exact fun found hfound => ⟨(apart found hfound).1, fun hmem =>
          (apart found hfound).2 (List.mem_cons_of_mem _ hmem)⟩
      rw [ih apart', distinct_cons_bound binds noMain sameMains other]
    cases e with
    | function name sig => exact bound name rfl rfl rfl
    | global name ty => exact bound name rfl rfl rfl
    | entryPoint name =>
      have named := (apart name (by simp [mainName?])).1
      have apart' : ∀ found ∈ (into s (.entryPoint name)).mains ++ rest.filterMap mainName?,
          found ≠ [] ∧ found ∉ rest.filterMap boundName? := by
        rw [mains_entryPoint named]
        exact fun found hfound => apart found (List.mem_append_right _ hfound)
      rw [AllFit, ih apart', distinct_cons_entryPoint named]
      rfl

end GlobalEntry

namespace Check

/-! ## The collection as a list of entries -/

/-- The entry of a global declaration that is well formed and has no note on its name. -/
def entryOf? (d : Node) : Option GlobalEntry :=
  match d.kind with
  | .entryPointDeclaration =>
    match entryPointHead d with
    | .ok ⟨_, name, _, none, _⟩ => some (.entryPoint name)
    | _ => none
  | .functionDeclaration =>
    match functionHead d with
    | .ok (⟨_, name, _, none, _⟩, sig) => some (.function name sig)
    | _ => none
  | .variableDeclaration =>
    match typedName d with
    | .ok (ty, ⟨_, name, _, none, _⟩) => some (.global name ty)
    | _ => none
  | _ => none

/-- The name that a declaration gives is spelled in its second child. -/
def declaredName? (d : Node) : Option Bytes :=
  d.children[1]?.map Node.attr

theorem entryOf?_eq_some {d : Node} {e : GlobalEntry} (isEntry : entryOf? d = some e) :
    d.kind = e.kind ∧ declaredName? d = some e.name := by
  unfold entryOf? at isEntry
  split at isEntry <;> rename_i hkind
  · split at isEntry
    · rename_i hhead
      cases isEntry
      obtain ⟨_, _, _, hch, -⟩ := entryPointHead_ok_iff.mp hhead
      exact ⟨hkind, by simp [declaredName?, hch, GlobalEntry.name]⟩
    · cases isEntry
  · split at isEntry
    · rename_i hhead
      cases isEntry
      obtain ⟨_, _, _, hch, -⟩ := functionHead_ok_iff.mp hhead
      exact ⟨hkind, by simp [declaredName?, hch, GlobalEntry.name]⟩
    · cases isEntry
  · split at isEntry
    · rename_i hname
      cases isEntry
      obtain ⟨_, hch, -⟩ := typedName_ok_iff.mp hname
      exact ⟨hkind, by simp [declaredName?, hch, GlobalEntry.name]⟩
    · cases isEntry
  · cases isEntry

theorem Context.setEntryPoint_ok {c : Context} {name : Bytes} {loc : Location}
    (first : c.scopes.globals.entryPoint = []) :
    c.setEntryPoint .globals name loc =
      .ok (c.withGlobals (GlobalEntry.into c.scopes.globals (.entryPoint name))) := by
  simp [Context.setEntryPoint, Scope.setEntryPoint, Scopes.get, first]
  rfl

theorem Context.declareFunc_ok {c : Context} {name : Bytes} {sig : Signature} {loc : Location}
    (isGlobal : c.scopes.globals.variant = .global)
    (fresh : c.scopes.globals.binds name = false) :
    c.declareFunc .globals name sig loc =
      .ok (c.withGlobals (GlobalEntry.into c.scopes.globals (.function name sig))) := by
  have storage : (c.scopes.get .globals).isGlobalStorage = true := by
    simp [Scope.isGlobalStorage, Scopes.get, isGlobal]
  have declared : (c.scopes.get .globals).declareFunc name sig loc =
      .ok (GlobalEntry.into c.scopes.globals (.function name sig)) := by
    simp only [Scope.declareFunc, Scopes.get, fresh, Bool.false_eq_true, if_false]
    rfl
  simp only [Context.declareFunc, storage, if_true, declared]
  rfl

theorem Context.declareVariable_ok {c : Context} {name : Bytes} {ty : Ty} {loc : Location}
    (fresh : c.scopes.globals.binds name = false) :
    c.declare .globals name ty loc =
      .ok (c.withGlobals (GlobalEntry.into c.scopes.globals (.global name ty))) :=
  Context.declare_ok_iff.mpr ⟨fresh, rfl⟩

theorem noteName_ok {c : Context} {decl id : Node} {sig : Bytes} (plain : id.note = none) :
    ∃ decl', noteName c decl id sig = (.ok (), decl', c) :=
  ⟨_, noteName_ok_iff.mpr ⟨plain, rfl, rfl⟩⟩

/-- A declaration is collected exactly if it has an entry that fits. -/
theorem collectDeclaration_ok_iff {c c' : Context} {d : Node}
    (isGlobal : c.scopes.globals.variant = .global) :
    (∃ d', collectDeclaration c d = (.ok (), d', c')) ↔
      ∃ e, entryOf? d = some e ∧ e.Fits c.scopes.globals ∧
        c' = c.withGlobals (e.into c.scopes.globals) := by
  constructor
  · rintro ⟨d', collected⟩
    cases DeclCollected.of_collectDeclaration collected with
    | @entryPoint attr loc note resultNode name nameLoc nameCh params body isVoid first =>
      have hhead : entryPointHead ⟨.entryPointDeclaration, attr, loc, note,
          [resultNode, ⟨.id, name, nameLoc, none, nameCh⟩, params, body]⟩ =
            .ok ⟨.id, name, nameLoc, none, nameCh⟩ :=
        entryPointHead_ok_iff.mpr ⟨_, _, _, rfl, isVoid, rfl⟩
      exact ⟨.entryPoint name, by simp only [entryOf?, hhead], first, rfl⟩
    | @function attr loc note resultNode name nameLoc nameCh params body sig isResult isList
        isParams fresh =>
      have hhead : functionHead ⟨.functionDeclaration, attr, loc, note,
          [resultNode, ⟨.id, name, nameLoc, none, nameCh⟩, params, body]⟩ =
            .ok (⟨.id, name, nameLoc, none, nameCh⟩, sig) :=
        functionHead_ok_iff.mpr ⟨_, _, _, rfl, isResult, rfl, isList, isParams⟩
      exact ⟨.function name sig, by simp only [entryOf?, hhead], fresh, rfl⟩
    | @global attr loc note t name nameLoc nameCh ty isType fresh =>
      have hname : typedName ⟨.variableDeclaration, attr, loc, note,
          [t, ⟨.id, name, nameLoc, none, nameCh⟩]⟩ =
            .ok (ty, ⟨.id, name, nameLoc, none, nameCh⟩) :=
        typedName_ok_iff.mpr ⟨_, rfl, isType, rfl⟩
      exact ⟨.global name ty, by simp only [entryOf?, hname], fresh, rfl⟩
  · rintro ⟨e, hentry, fits, rfl⟩
    unfold entryOf? at hentry
    -- one goal for each kind of declaration, with the head that was read, and the others
    split at hentry <;> rename_i hkind
    · split at hentry
      · rename_i hhead
        cases hentry
        simp only [collectDeclaration, hkind, hhead, Context.setEntryPoint_ok fits]
        exact noteName_ok rfl
      · cases hentry
    · split at hentry
      · rename_i hhead
        cases hentry
        simp only [collectDeclaration, hkind, hhead, Context.declareFunc_ok isGlobal fits]
        exact noteName_ok rfl
      · cases hentry
    · split at hentry
      · rename_i hname
        cases hentry
        simp only [collectDeclaration, hkind, hname, Context.declareVariable_ok fits]
        exact noteName_ok rfl
      · cases hentry
    · cases hentry

/-- A list of declarations is collected exactly if each has an entry and the entries fit. -/
theorem collectDeclarations_ok_iff {c c' : Context} {ds : List Node}
    (isGlobal : c.scopes.globals.variant = .global) :
    (∃ ds', collectDeclarations c ds = (.ok (), ds', c')) ↔
      (∀ d ∈ ds, (entryOf? d).isSome) ∧
        GlobalEntry.AllFit c.scopes.globals (ds.filterMap entryOf?) ∧
        c' = c.withGlobals ((ds.filterMap entryOf?).foldl GlobalEntry.into c.scopes.globals) := by
  induction ds generalizing c with
  | nil => simp [collectDeclarations_nil, GlobalEntry.AllFit, Context.withGlobals]
  | cons d rest ih =>
    constructor
    · rintro ⟨ds', collected⟩
      obtain ⟨d', c₁, rest', hd, hrest, -⟩ := collectDeclarations_cons.mp collected
      obtain ⟨e, hentry, fits, rfl⟩ := (collectDeclaration_ok_iff isGlobal).mp ⟨d', hd⟩
      obtain ⟨hall, hfit, rfl⟩ :=
        (ih ((GlobalEntry.into_variant _ e).trans isGlobal)).mp ⟨rest', hrest⟩
      rw [List.filterMap_cons_some hentry, List.foldl_cons]
      exact ⟨List.forall_mem_cons.mpr ⟨by simp [hentry], hall⟩, ⟨fits, hfit⟩, rfl⟩
    · rintro ⟨hall, hfit, rfl⟩
      obtain ⟨hfirst, hall⟩ := List.forall_mem_cons.mp hall
      obtain ⟨e, hentry⟩ := Option.isSome_iff_exists.mp hfirst
      rw [List.filterMap_cons_some hentry, List.foldl_cons] at *
      obtain ⟨fits, hfit⟩ := hfit
      obtain ⟨d', hd⟩ := (collectDeclaration_ok_iff isGlobal).mpr ⟨e, hentry, fits, rfl⟩
      have isGlobal' : (c.withGlobals (e.into c.scopes.globals)).scopes.globals.variant = .global :=
        (GlobalEntry.into_variant _ e).trans isGlobal
      obtain ⟨rest', hrest⟩ := (ih isGlobal').mpr ⟨hall, hfit, rfl⟩
      exact ⟨d' :: rest', collectDeclarations_cons.mpr ⟨d', _, rest', hd, hrest, rfl⟩⟩

end Check

end TreeWat
