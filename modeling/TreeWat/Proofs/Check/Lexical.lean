import TreeWat.Proofs.Check.Statement
set_option autoImplicit false

/-!
# Check: what names stand for inside a function

While a function body is checked, the context holds a stack of scopes.  `Names` is
what this stack amounts to: the parameters and variables declared so far, the global
variables and the user's functions.  `Inside` ties a context to the names, and its
lemmas say that looking up a name in the context is looking it up in `Names`, and
that opening a scope, closing it and declaring a variable keep the two together.
-/

namespace TreeWat

/-- What the names in a function body stand for at some point of it. -/
structure Names where
  /-- Parameters and variables declared so far. -/
  locals : List (Bytes × Ty)
  /-- Global variables. -/
  globals : List (Bytes × Ty)
  /-- The user's functions. -/
  funcs : List (Bytes × Signature)

namespace Names

/-- The type of a variable; a local one hides a global one. -/
def var? (Γ : Names) (name : Bytes) : Option Ty :=
  (Γ.locals.lookup name).or (Γ.globals.lookup name)

/-- The signature of a function; the user's hides the library's. -/
def func? (Γ : Names) (name : Bytes) : Option Signature :=
  (Γ.funcs.lookup name).or (Scope.builtinFunctions.lookup name)

/-- The names behind the declaration of a variable. -/
def declare (Γ : Names) (name : Bytes) (ty : Ty) : Names :=
  { Γ with locals := Γ.locals ++ [(name, ty)] }

/-- The names behind the declarations of several variables. -/
def declareAll (Γ : Names) (vs : List (Bytes × Ty)) : Names :=
  { Γ with locals := Γ.locals ++ vs }

@[simp] theorem declareAll_nil (Γ : Names) : Γ.declareAll [] = Γ := by
  simp [declareAll]

@[simp] theorem declare_declareAll (Γ : Names) (name : Bytes) (ty : Ty)
    (vs : List (Bytes × Ty)) :
    (Γ.declare name ty).declareAll vs = Γ.declareAll ((name, ty) :: vs) := by
  simp [declare, declareAll]

end Names

/-- A name has no entry exactly if it is not among the names of the entries. -/
theorem lookup_eq_none_iff_not_mem {α : Type} {vs : List (Bytes × α)} {name : Bytes} :
    vs.lookup name = none ↔ name ∉ vs.map Prod.fst := by
  rw [List.lookup_eq_none_iff]
  constructor
  · intro h hmem
    obtain ⟨v, hv, rfl⟩ := List.mem_map.mp hmem
    simpa using h v hv
  · intro h v hv
    exact bne_iff_ne.mpr fun heq => h (List.mem_map.mpr ⟨v, hv, heq.symm⟩)

theorem mem_of_lookup {α : Type} {vs : List (Bytes × α)} {name : Bytes} {a : α}
    (h : vs.lookup name = some a) : (name, a) ∈ vs := by
  obtain ⟨l₁, l₂, rfl, -⟩ := List.lookup_eq_some_iff.mp h
  simp

/-! ## Names that stand for values -/

/-- A function of the user takes values and returns one or nothing. -/
structure Signature.Valued (sig : Signature) : Prop where
  params : ∀ ty ∈ sig.params, ty.hasValue = true
  result : sig.result.hasValue = true ∨ sig.result = .void

/-- Every variable has a value and every function of the user takes values. -/
structure Names.Valued (Γ : Names) : Prop where
  locals : ∀ v ∈ Γ.locals, v.2.hasValue = true
  globals : ∀ v ∈ Γ.globals, v.2.hasValue = true
  funcs : ∀ v ∈ Γ.funcs, v.2.Valued

theorem Names.Valued.var {Γ : Names} (h : Γ.Valued) {name : Bytes} {ty : Ty}
    (declared : Γ.var? name = some ty) : ty.hasValue = true := by
  unfold Names.var? at declared
  cases hl : Γ.locals.lookup name with
  | some ty' =>
    rw [hl, Option.some_or] at declared
    cases declared
    exact h.locals _ (mem_of_lookup hl)
  | none =>
    rw [hl, Option.none_or] at declared
    exact h.globals _ (mem_of_lookup declared)

/-- Every function takes values, the library's `prints` apart. -/
theorem Names.Valued.func {Γ : Names} (h : Γ.Valued) {name : Bytes} {sig : Signature}
    (resolved : Γ.func? name = some sig) :
    sig.Valued ∨ Γ.funcs.lookup name = none ∧ name = utf8 "prints" ∧ sig = ⟨[.string], .void⟩ := by
  unfold Names.func? at resolved
  cases hf : Γ.funcs.lookup name with
  | some sig' =>
    rw [hf, Option.some_or] at resolved
    cases resolved
    exact .inl (h.funcs _ (mem_of_lookup hf))
  | none =>
    rw [hf, Option.none_or] at resolved
    have hmem := mem_of_lookup resolved
    simp only [Scope.builtinFunctions, List.mem_cons, Prod.mk.injEq, List.not_mem_nil,
      or_false] at hmem
    rcases hmem with ⟨-, rfl⟩ | ⟨-, rfl⟩ | ⟨-, rfl⟩ | ⟨-, rfl⟩ | ⟨-, rfl⟩ | ⟨hname, rfl⟩
    · exact .inl ⟨by simp, .inl rfl⟩
    · exact .inl ⟨by simp, .inr rfl⟩
    · exact .inl ⟨by simp [Ty.hasValue], .inr rfl⟩
    · exact .inl ⟨by simp [Ty.hasValue], .inr rfl⟩
    · exact .inl ⟨by simp [Ty.hasValue], .inr rfl⟩
    · exact .inr ⟨rfl, hname, rfl⟩

theorem Names.Valued.declare {Γ : Names} (h : Γ.Valued) {name : Bytes} {ty : Ty}
    (hasValue : ty.hasValue = true) : (Γ.declare name ty).Valued where
  locals v hv := by
    rcases List.mem_append.mp hv with hv | hv
    · exact h.locals v hv
    · rw [List.mem_singleton.mp hv]
      exact hasValue
  globals := h.globals
  funcs := h.funcs

/-! ## Reading and writing the store of scopes -/

namespace Scopes

theorem get_opened_of_getElem? {st : Scopes} {k : Nat} {s : Scope}
    (h : st.opened[k]? = some s) : st.get (.opened k) = s := by
  simp [get, List.getD, h]

theorem get_set_self {st : Scopes} {k : Nat} (s : Scope) (h : k < st.opened.length) :
    (st.set (.opened k) s).get (.opened k) = s := by
  simp [get, set, List.getD, h]

theorem get_set_of_ne {st : Scopes} {j k : Nat} (s : Scope) (h : k ≠ j) :
    (st.set (.opened k) s).get (.opened j) = st.get (.opened j) := by
  simp [get, set, List.getD, List.getElem?_set_ne h]

end Scopes

namespace Check

/-! ## What a check leaves alone -/

namespace Frame

/-- A scope that was opened and closed again leaves a frame behind. -/
theorem of_enter {c c' : Context} {make : Bytes → Scope}
    (h : Frame c.scopes.opened.length (c.enter make).1 c') :
    Frame c.scopes.opened.length c (c'.leaveTo c) where
  stack := rfl
  builtins := h.builtins
  globals := h.globals
  opened i hi := by
    have := h.opened i hi
    simpa [Context.leaveTo, Context.enter, Context.push, Scopes.add,
      List.getElem?_append_left hi] using this
  length := by
    have := h.length
    rw [enter_length] at this
    exact Nat.le_of_succ_le this
  tags := Nat.le_of_succ_le h.tags

/-- Declaring a variable changes one opened scope only. -/
theorem bind (k : Nat) (c : Context) (name : Bytes) (ty : Ty) :
    Frame k c (c.bind (.opened k) name ty) where
  stack := rfl
  builtins := rfl
  globals := rfl
  opened i hi := by simp [Context.bind, Scopes.set, List.getElem?_set_ne (Nat.ne_of_gt hi)]
  length := by simp [Context.bind, Scopes.set]
  tags := Nat.le_refl _

end Frame

/-! ## Contexts inside a function -/

/-- The fixed data of the function whose body is checked. -/
structure FunctionScope where
  /-- The number of its scope. -/
  number : Nat
  tag : Bytes
  start : Location
  result : Ty

/-- The scope of the function, with the variables declared so far. -/
def FunctionScope.scope (f : FunctionScope) (locals : List (Bytes × Ty)) : Scope :=
  { Scope.function f.tag f.start f.result with vars := locals }

/-- A context inside a function: below the nested scopes `inner`, the scope of the
function and the two program-wide scopes are open, and they hold the names `Γ`.
`inLoop` says whether one of the nested scopes is the body of a loop. -/
structure Inside (f : FunctionScope) (c : Context) (inner : List Nat) (inLoop : Bool)
    (Γ : Names) : Prop where
  stack : c.stack = inner.map .opened ++ [.opened f.number, .globals, .builtins]
  builtins : c.scopes.builtins = .builtins
  globalVariant : c.scopes.globals.variant = .global
  globalVars : c.scopes.globals.vars = Γ.globals
  globalFuncs : c.scopes.globals.funcs = Γ.funcs
  function : c.scopes.opened[f.number]? = some (f.scope Γ.locals)
  /-- A nested scope is a later one than the function's and binds nothing. -/
  nested : ∀ k ∈ inner, f.number < k ∧ ∃ v tag loc, (v = .block ∨ v = .loop) ∧
    c.scopes.opened[k]? = some (.empty v tag loc)
  loops : inLoop = true ↔ ∃ k ∈ inner, (c.scopes.get (.opened k)).variant = .loop

/-- The scope that a variable belongs to. -/
def FunctionScope.ownerOf (f : FunctionScope) (Γ : Names) (name : Bytes) : ScopeId :=
  if (Γ.locals.lookup name).isSome then .opened f.number else .globals

/-- The scope that a function belongs to. -/
def calleeOwner (Γ : Names) (name : Bytes) : ScopeId :=
  if (Γ.funcs.lookup name).isSome then .globals else .builtins

namespace Inside

variable {f : FunctionScope} {c c' : Context} {inner : List Nat} {inLoop : Bool} {Γ : Names}

theorem number_lt (h : Inside f c inner inLoop Γ) : f.number < c.scopes.opened.length :=
  (List.getElem?_eq_some_iff.mp h.function).1

theorem nested_lt (h : Inside f c inner inLoop Γ) {k : Nat} (hk : k ∈ inner) :
    k < c.scopes.opened.length := by
  obtain ⟨-, v, tag, loc, -, hget⟩ := h.nested k hk
  exact (List.getElem?_eq_some_iff.mp hget).1

theorem get_function (h : Inside f c inner inLoop Γ) :
    c.scopes.get (.opened f.number) = f.scope Γ.locals :=
  Scopes.get_opened_of_getElem? h.function

theorem get_nested (h : Inside f c inner inLoop Γ) {k : Nat} (hk : k ∈ inner) :
    ∃ v tag loc, (v = .block ∨ v = .loop) ∧ c.scopes.get (.opened k) = .empty v tag loc := by
  obtain ⟨-, v, tag, loc, hv, hget⟩ := h.nested k hk
  exact ⟨v, tag, loc, hv, Scopes.get_opened_of_getElem? hget⟩

/-! ### Looking up names -/

/-- A variable is the function's own if the function has declared one of that name,
and a global one otherwise. -/
theorem lookup_ok_iff (h : Inside f c inner inLoop Γ) {name : Bytes} {loc : Location}
    {owner : ScopeId} {ty : Ty} :
    c.lookup name loc = .ok (owner, ty) ↔ Γ.var? name = some ty ∧ owner = f.ownerOf Γ name := by
  -- the nested scopes bind nothing, so that the search begins at the function's scope
  have hinner : (inner.map ScopeId.opened).findSome?
      (fun id => ((c.scopes.get id).var? name).map (id, ·)) = none := by
    rw [List.findSome?_eq_none_iff]
    intro id hid
    obtain ⟨k, hk, rfl⟩ := List.mem_map.mp hid
    obtain ⟨v, tag, loc, -, hget⟩ := h.get_nested hk
    simp [hget, Scope.var?, Scope.empty]
  have hbuiltins : c.scopes.get .builtins = Scope.builtins := h.builtins
  have hglobals : (c.scopes.get .globals).vars = Γ.globals := h.globalVars
  unfold Context.lookup Scopes.lookup
  rw [h.stack, List.findSome?_append, hinner]
  simp only [List.findSome?_cons, List.findSome?_nil, h.get_function, hbuiltins, Option.none_or,
    Scope.var?, hglobals, FunctionScope.scope, Names.var?, FunctionScope.ownerOf]
  cases hl : Γ.locals.lookup name with
  | some ty' =>
    simp only [Option.map_some, Option.some_or, Option.isSome_some, if_true, Except.ok.injEq,
      Prod.mk.injEq, Option.some.injEq]
    constructor
    · rintro ⟨rfl, rfl⟩
      exact ⟨rfl, rfl⟩
    · rintro ⟨rfl, rfl⟩
      exact ⟨rfl, rfl⟩
  | none =>
    cases hg : Γ.globals.lookup name with
    | some ty' =>
      simp only [Option.map_none, Option.map_some, Option.none_or, Option.isSome_none,
        Bool.false_eq_true, if_false, Except.ok.injEq, Prod.mk.injEq, Option.some.injEq]
      constructor
      · rintro ⟨rfl, rfl⟩
        exact ⟨rfl, rfl⟩
      · rintro ⟨rfl, rfl⟩
        exact ⟨rfl, rfl⟩
    | none => simp [Scope.builtins, Scope.empty]

/-- A call goes to the user's function of that name if there is one, and to the
library otherwise. -/
theorem resolveCall_ok_iff (h : Inside f c inner inLoop Γ) {name : Bytes} {loc : Location}
    {owner : ScopeId} {sig : Signature} :
    c.scopes.resolveCall name loc = .ok (owner, sig) ↔
      Γ.func? name = some sig ∧ owner = calleeOwner Γ name := by
  unfold Scopes.resolveCall
  simp only [Scope.func?, h.globalFuncs, h.builtins, Names.func?, calleeOwner]
  cases hf : Γ.funcs.lookup name with
  | some sig' =>
    simp only [Option.some_or, Option.isSome_some, if_true, Except.ok.injEq, Prod.mk.injEq,
      Option.some.injEq]
    constructor
    · rintro ⟨rfl, rfl⟩
      exact ⟨rfl, rfl⟩
    · rintro ⟨rfl, rfl⟩
      exact ⟨rfl, rfl⟩
  | none =>
    cases hb : Scope.builtins.funcs.lookup name with
    | some sig' =>
      have hb' : Scope.builtinFunctions.lookup name = some sig' := hb
      simp only [hb', Option.none_or, Option.isSome_none, Bool.false_eq_true, if_false,
        Except.ok.injEq, Prod.mk.injEq, Option.some.injEq]
      constructor
      · rintro ⟨rfl, rfl⟩
        exact ⟨rfl, rfl⟩
      · rintro ⟨rfl, rfl⟩
        exact ⟨rfl, rfl⟩
    | none =>
      have hb' : Scope.builtinFunctions.lookup name = none := hb
      simp only [hb', Option.none_or, reduceCtorEq, false_and, iff_false]
      split <;> simp

theorem nearest_function (h : Inside f c inner inLoop Γ) :
    c.nearest? .function = some (.opened f.number) := by
  have hinner : (inner.map ScopeId.opened).find?
      (fun id => decide ((c.scopes.get id).variant = .function)) = none := by
    rw [List.find?_eq_none]
    intro id hid
    obtain ⟨k, hk, rfl⟩ := List.mem_map.mp hid
    obtain ⟨v, tag, loc, hv, hget⟩ := h.get_nested hk
    rcases hv with rfl | rfl <;> simp [hget, Scope.empty]
  unfold Context.nearest? Scopes.nearest?
  rw [h.stack, List.find?_append, hinner]
  simp [h.get_function, FunctionScope.scope, Scope.function, Scope.empty]

/-- A loop is open exactly if one of the nested scopes is a loop's. -/
theorem nearest_loop_isSome (h : Inside f c inner inLoop Γ) :
    (c.nearest? .loop).isSome = inLoop := by
  unfold Context.nearest? Scopes.nearest?
  have hglobals : (c.scopes.get .globals).variant = .global := h.globalVariant
  have hbuiltins : c.scopes.get .builtins = Scope.builtins := h.builtins
  rw [Bool.eq_iff_iff, h.stack, List.isSome_find?, List.any_append, List.any_map, h.loops]
  simp [Function.comp_def, h.get_function, hglobals, hbuiltins, FunctionScope.scope,
    Scope.function, Scope.builtins, Scope.empty]

/-! ### Moving through a body -/

/-- What leaves all opened scopes alone keeps the names. -/
theorem of_frame (h : Inside f c inner inLoop Γ)
    (hframe : Frame c.scopes.opened.length c c') : Inside f c' inner inLoop Γ where
  stack := hframe.stack.trans h.stack
  builtins := hframe.builtins.trans h.builtins
  globalVariant := by rw [hframe.globals, h.globalVariant]
  globalVars := by rw [hframe.globals, h.globalVars]
  globalFuncs := by rw [hframe.globals, h.globalFuncs]
  function := by rw [hframe.opened _ h.number_lt, h.function]
  nested k hk := by rw [hframe.opened _ (h.nested_lt hk)]; exact h.nested k hk
  loops := by
    rw [h.loops]
    constructor
    · rintro ⟨k, hk, hv⟩
      exact ⟨k, hk, by rw [hframe.get (h.nested_lt hk), hv]⟩
    · rintro ⟨k, hk, hv⟩
      exact ⟨k, hk, by rw [← hframe.get (h.nested_lt hk), hv]⟩

/-- Opening a scope for a block or a loop. -/
theorem enter (h : Inside f c inner inLoop Γ) {v : Variant} (hv : v = .block ∨ v = .loop)
    (loc : Location) :
    (c.enter fun tag => .empty v tag loc).2 = .opened c.scopes.opened.length ∧
      Inside f (c.enter fun tag => .empty v tag loc).1 (c.scopes.opened.length :: inner)
        (v = .loop || inLoop) Γ := by
  refine ⟨rfl, ?_⟩
  have hframe : ∀ k < c.scopes.opened.length,
      (c.enter fun tag => .empty v tag loc).1.scopes.opened[k]? = c.scopes.opened[k]? := by
    intro k hk
    simp [Context.enter, Context.push, Scopes.add, List.getElem?_append_left hk]
  have hget : ∀ k ∈ inner, (c.enter fun tag => .empty v tag loc).1.scopes.get (.opened k) =
      c.scopes.get (.opened k) := by
    intro k hk
    simp only [Scopes.get, List.getD, hframe k (h.nested_lt hk)]
  have hnew : ((c.enter fun tag => .empty v tag loc).1.scopes.get
      (.opened c.scopes.opened.length)).variant = v := by
    simp [Context.enter, Context.push, Scopes.add, Scopes.get, List.getD, Scope.empty]
  refine ⟨?_, h.builtins, h.globalVariant, h.globalVars, h.globalFuncs, ?_, ?_, ?_⟩
  · simp [Context.enter, Context.push, Scopes.add, h.stack]
  · rw [hframe _ h.number_lt, h.function]
  · intro k hk
    rcases List.mem_cons.mp hk with rfl | hk
    · refine ⟨h.number_lt, v, utf8 "L" ++ Bytes.ofNat (c.tags + 1), loc, hv, ?_⟩
      simp only [Context.enter, Context.push, Scopes.add, List.getElem?_concat_length]
    · rw [hframe _ (h.nested_lt hk)]
      exact h.nested k hk
  · rw [Bool.or_eq_true, decide_eq_true_eq, h.loops]
    constructor
    · rintro (rfl | ⟨k, hk, hloop⟩)
      · exact ⟨_, List.mem_cons_self, hnew⟩
      · exact ⟨k, List.mem_cons_of_mem _ hk, by rw [hget k hk, hloop]⟩
    · rintro ⟨k, hk, hloop⟩
      rcases List.mem_cons.mp hk with rfl | hk
      · exact .inl (hnew ▸ hloop)
      · exact .inr ⟨k, hk, by rw [← hget k hk, hloop]⟩

/-- The innermost scope is the function's own only outside all nested scopes. -/
theorem top_variant (h : Inside f c inner inLoop Γ) {top : ScopeId} (htop : c.top? = some top)
    (hfn : (c.scopes.get top).variant = .function) : inner = [] ∧ top = .opened f.number := by
  unfold Context.top? at htop
  rw [h.stack] at htop
  cases inner with
  | nil => simpa using htop.symm
  | cons k inner =>
    obtain ⟨v, tag, loc, hv, hget⟩ := h.get_nested List.mem_cons_self
    have : top = .opened k := by simpa using htop.symm
    rw [this, hget] at hfn
    rcases hv with rfl | rfl <;> simp [Scope.empty] at hfn

theorem top_function (h : Inside f c [] inLoop Γ) : c.top? = some (.opened f.number) := by
  unfold Context.top?
  rw [h.stack]
  rfl

/-- Declaring a variable of the function. -/
theorem bind (h : Inside f c [] inLoop Γ) (name : Bytes) (ty : Ty) :
    Inside f (c.bind (.opened f.number) name ty) [] inLoop (Γ.declare name ty) where
  stack := h.stack
  builtins := h.builtins
  globalVariant := h.globalVariant
  globalVars := h.globalVars
  globalFuncs := h.globalFuncs
  function := by
    simp [Context.bind, Scopes.set, h.get_function, FunctionScope.scope, Names.declare,
      h.number_lt]
  nested := by simp
  loops := by simpa using h.loops

/-- A name is free in the function's scope if the function has not declared it. -/
theorem binds_eq_false_iff (h : Inside f c inner inLoop Γ) {name : Bytes} :
    (c.scopes.get (.opened f.number)).binds name = false ↔ name ∉ Γ.locals.map Prod.fst := by
  rw [h.get_function, ← lookup_eq_none_iff_not_mem]
  simp [Scope.binds, Scope.var?, Scope.func?, FunctionScope.scope, Scope.function, Scope.empty]

end Inside

/-! ## A check keeps the context it started in

Statements other than declarations, and all statements inside a nested scope, leave
every scope that was open or had been opened before as it was. -/

/-- The statements of a list leave a frame if each of them does. -/
theorem checkStatements_frame {f : FunctionScope} {inner : List Nat} {inLoop : Bool}
    {Γ : Names} {ss : List Node}
    (each : ∀ s ∈ ss, ∀ {c c' : Context} {s' : Node}, Inside f c inner inLoop Γ →
      checkStatementIn none c s = (.ok (), s', c') → Frame c.scopes.opened.length c c')
    {c c' : Context} {ss' : List Node} (h : Inside f c inner inLoop Γ)
    (accepted : checkStatements c ss = (.ok (), ss', c')) :
    Frame c.scopes.opened.length c c' := by
  induction ss generalizing c ss' with
  | nil =>
    obtain ⟨rfl, rfl⟩ := checkStatements_nil.mp accepted
    exact .refl _ _
  | cons s rest ih =>
    obtain ⟨s', c₁, rest', hs, hrest, rfl⟩ := checkStatements_cons.mp accepted
    have h₁ : Frame c.scopes.opened.length c c₁ := each s List.mem_cons_self h hs
    have h₂ := ih (fun s hs => each s (List.mem_cons_of_mem _ hs)) (h.of_frame h₁) hrest
    exact h₁.trans (h₂.mono h₁.length)

/-- A statement in a scope opened for it leaves a frame. -/
theorem frame_of_scoped {f : FunctionScope} {inner : List Nat} {inLoop : Bool} {Γ : Names}
    {c c' : Context} {arm arm' : Node} {v : Variant} {inside : Context × ScopeId}
    (each : ∀ {own : Option ScopeId} {c c' : Context} {n' : Node} {inner : List Nat}
      {inLoop : Bool}, Inside f c inner inLoop Γ → (own.isSome → inner ≠ []) →
      (inner = [] → arm.kind ≠ .variableDeclaration) →
      checkStatementIn own c arm = (.ok (), n', c') → Frame c.scopes.opened.length c c')
    (h : Inside f c inner inLoop Γ) (hv : v = .block ∨ v = .loop)
    (isInside : inside = c.enter fun tag => .empty v tag arm.loc)
    (accepted : checkStatementIn (some inside.2) inside.1 arm = (.ok (), arm', c')) :
    Frame c.scopes.opened.length c (c'.leaveTo c) := by
  subst isInside
  obtain ⟨-, hin⟩ := h.enter hv arm.loc
  have harm := each hin (by simp) (by simp) accepted
  exact .of_enter (harm.mono (by rw [Frame.enter_length]; exact Nat.le_succ _))

theorem checkStatementIn_frame {n : Node} :
    ∀ {f : FunctionScope} {own : Option ScopeId} {c c' : Context} {n' : Node}
      {inner : List Nat} {inLoop : Bool} {Γ : Names},
      Inside f c inner inLoop Γ → (own.isSome → inner ≠ []) →
      (inner = [] → n.kind ≠ .variableDeclaration) →
      checkStatementIn own c n = (.ok (), n', c') → Frame c.scopes.opened.length c c' := by
  induction n using Node.induction with
  | step n ih =>
    intro f own c c' n' inner inLoop Γ h hown hkind accepted
    cases checkStatementIn_ok_iff.mp accepted with
    | @block _ loc ch ch' c' acceptedAll =>
      cases own with
      | some id =>
        have hall := checkStatements_frame (fun s hs c c' s' hc => ih s (Node.mem_descendants_of_child hs) hc
          (by simp) fun hnil => absurd hnil (hown rfl)) h acceptedAll
        exact { hall with stack := rfl }
      | none =>
        obtain ⟨-, hin⟩ := h.enter (.inl rfl) loc
        have hall := checkStatements_frame (fun s hs c c' s' hc => ih s (Node.mem_descendants_of_child hs) hc
          (by simp) (by simp)) hin acceptedAll
        exact .of_enter (hall.mono (by rw [Frame.enter_length]; exact Nat.le_succ _))
    | declaration isType isTop inFunction fresh =>
      obtain ⟨hnil, -⟩ := h.top_variant isTop inFunction
      exact absurd rfl (hkind hnil)
    | expression _ => exact .refl _ _
    | call _ _ => exact .refl _ _
    | null => exact .refl _ _
    | @ifThen _ _ _ _ _ arm _ _ _ isInside _ acceptedArm =>
      exact frame_of_scoped (ih arm (Node.mem_descendants_of_child (by simp))) h (.inl rfl) isInside acceptedArm
    | @ifElse _ _ _ _ _ arm₁ _ arm₂ _ _ _ c₁ _ isInside₁ isInside₂ _ accepted₁ accepted₂ =>
      have h₁ := frame_of_scoped (ih arm₁ (Node.mem_descendants_of_child (by simp))) h (.inl rfl) isInside₁ accepted₁
      have h₂ := frame_of_scoped (ih arm₂ (Node.mem_descendants_of_child (by simp))) (h.of_frame h₁) (.inl rfl) isInside₂ accepted₂
      exact h₁.trans (h₂.mono h₁.length)
    | @«while» _ _ _ _ _ body _ _ _ isInside _ acceptedBody =>
      exact frame_of_scoped (ih body (Node.mem_descendants_of_child (by simp))) h (.inr rfl) isInside acceptedBody
    | returnNothing _ _ => exact .refl _ _
    | returnValue _ _ _ => exact .refl _ _
    | «break» _ => exact .refl _ _

end Check

end TreeWat
