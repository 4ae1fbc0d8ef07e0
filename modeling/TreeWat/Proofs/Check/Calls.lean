import TreeWat.Proofs.Check.Order
import TreeWat.Proofs.Check.Resolution
set_option autoImplicit false

/-!
# Check: what a call can refer to

A call is looked up among the functions of the user, then among those of the runtime library,
and only then is its name held against that of the entry point.  So the entry point is never
called, but its name can be: a function in front of it may bear the same name, and so may a
function of the runtime library, and a call of that name goes to the function.  Without such a
function there is no such call in an accepted program (`entryPoint_called`).
-/

namespace TreeWat

namespace Node

/-- The calls in a tree, but for those below leaves whose children the checker does not
count. -/
def calls (n : Node) : List Node :=
  n.pruned.preorder.filter (·.kind = .functionInvocation)

/-- The name that a call refers to. -/
def callee? (call : Node) : Option Bytes :=
  call.children.head?.map Node.attr

end Node

namespace Check

/-! ## Calls and their functions -/

/-- Each call in the tree goes to one of the given functions of the user or to one of the
runtime library. -/
def CallsAmong (funcs : List (Bytes × Signature)) (n : Node) : Prop :=
  ∀ call ∈ n.calls, ∃ name, call.callee? = some name ∧
    (name ∈ funcs.map Prod.fst ∨ name ∈ Scope.builtins.funcNames)

section CallsAmong

variable {funcs : List (Bytes × Signature)} {kind : Kind} {attr : Bytes} {loc : Location}
  {note : Option Annotation} {children : List Node}

/-- The calls of a tree are those of its children, and the tree itself if it is a call. -/
theorem mem_calls {m : Node} (hm : m ∈ (⟨kind, attr, loc, note, children⟩ : Node).calls) :
    (kind = .functionInvocation ∧ m = ⟨kind, attr, loc, note, children.map Node.pruned⟩) ∨
      kind.isUncounted = false ∧ ∃ c ∈ children, m ∈ c.calls := by
  obtain ⟨hm, isCall⟩ := List.mem_filter.mp hm
  rw [Node.pruned, Node.prunedAll_eq_map] at hm
  rcases Node.mem_preorder.mp hm with rfl | hm
  · have isCall : kind = .functionInvocation := by simpa using isCall
    subst isCall
    exact .inl ⟨rfl, rfl⟩
  · obtain ⟨c', hc', hm⟩ := Node.mem_preorderAll.mp hm
    cases counted : kind.isUncounted with
    | true => simp [counted] at hc'
    | false =>
      simp only [counted, Bool.false_eq_true, if_false] at hc'
      obtain ⟨c, hc, rfl⟩ := List.mem_map.mp hc'
      exact .inr ⟨rfl, c, hc, List.mem_filter.mpr ⟨hm, isCall⟩⟩

theorem callsAmong_leaf {n : Node} (uncounted : n.kind.isUncounted = true) :
    CallsAmong funcs n := by
  intro call hcall
  rcases n with ⟨kind, attr, loc, note, children⟩
  obtain ⟨rfl, -⟩ | ⟨counted, -⟩ := mem_calls hcall
  · cases uncounted
  · cases counted.symm.trans uncounted

theorem callsAmong_branch (other : kind ≠ .functionInvocation)
    (below : ∀ c ∈ children, CallsAmong funcs c) :
    CallsAmong funcs ⟨kind, attr, loc, note, children⟩ := by
  intro call hcall
  obtain ⟨isCall, -⟩ | ⟨-, c, hc, hcall⟩ := mem_calls hcall
  · exact absurd isCall other
  · exact below c hc call hcall

theorem callsAmong_call {name : Bytes} {nameLoc listLoc : Location}
    {nameNote listNote : Option Annotation} {listAttr : Bytes} {nameCh args : List Node}
    (known : name ∈ funcs.map Prod.fst ∨ name ∈ Scope.builtins.funcNames)
    (below : ∀ a ∈ args, CallsAmong funcs a) :
    CallsAmong funcs ⟨.functionInvocation, attr, loc, note,
      [⟨.id, name, nameLoc, nameNote, nameCh⟩,
        ⟨.argumentList, listAttr, listLoc, listNote, args⟩]⟩ := by
  intro call hcall
  obtain ⟨-, rfl⟩ | ⟨-, c, hc, hcall⟩ := mem_calls hcall
  · exact ⟨name, by simp [Node.callee?, Node.pruned], known⟩
  · rcases List.mem_pair.mp hc with rfl | rfl
    · exact callsAmong_leaf rfl call hcall
    · exact callsAmong_branch (by simp) below call hcall

end CallsAmong

/-! ## Resolved trees -/

section Resolved

variable {scopes : Scopes} {f : FunctionScope} {Γ : Names}

/-- A function that names stand for is one of the user or of the runtime library. -/
theorem Names.mem_of_func? {name : Bytes} {sig : Signature} (resolved : Γ.func? name = some sig) :
    name ∈ Γ.funcs.map Prod.fst ∨ name ∈ Scope.builtins.funcNames := by
  unfold Names.func? at resolved
  cases hf : Γ.funcs.lookup name with
  | some sig' => exact .inl (List.mem_map.mpr ⟨_, mem_of_lookup hf, rfl⟩)
  | none =>
    rw [hf, Option.none_or] at resolved
    exact .inr (List.mem_map.mpr ⟨_, mem_of_lookup resolved, rfl⟩)

theorem exists_mem_zip_left {α β : Type} {as : List α} {bs : List β}
    (count : bs.length = as.length) {a : α} (ha : a ∈ as) : ∃ b, (a, b) ∈ as.zip bs := by
  obtain ⟨i, hi, rfl⟩ := List.getElem_of_mem ha
  have hlt : i < bs.length := count ▸ hi
  exact ⟨bs[i], getElem_mem_zip hi hlt⟩

theorem ExprResolved.callsAmong {n n' : Node} (h : ExprResolved scopes f Γ n n') :
    CallsAmong Γ.funcs n := by
  induction h with
  | name => exact callsAmong_leaf rfl
  | literal isLiteral =>
    exact callsAmong_leaf (Kind.isExpression_of_literalType? isLiteral).2
  | call resolved _ _ count _ ih =>
    refine callsAmong_call (Names.mem_of_func? resolved) fun a ha => ?_
    obtain ⟨a', hzip⟩ := exists_mem_zip_left count ha
    exact ih (a, a') hzip
  | @operation kind _ _ operands operands' _ isOperator _ count _ ih =>
    refine callsAmong_branch ?_ fun e he => ?_
    · rintro rfl
      cases isOperator
    · obtain ⟨e', hzip⟩ := exists_mem_zip_left count he
      exact ih (e, e') hzip

mutual

theorem StmtResolved.callsAmong {own : Option Nat} {loops : List Nat} {k k' : Nat}
    {n n' : Node} (h : StmtResolved scopes f Γ own loops k n n' k') : CallsAmong Γ.funcs n := by
  cases h with
  | block _ statements => exact callsAmong_branch (by simp) statements.callsAmong
  | armBlock statements => exact callsAmong_branch (by simp) statements.callsAmong
  | expression value => exact callsAmong_branch (by simp) (by simpa using value.callsAmong)
  | call _ value => exact value.callsAmong
  | null => exact callsAmong_leaf rfl
  | ifThen condition _ whenTrue =>
    exact callsAmong_branch (by simp) (by simpa using ⟨condition.callsAmong, whenTrue.callsAmong⟩)
  | ifElse condition _ whenTrue _ whenFalse =>
    exact callsAmong_branch (by simp)
      (by simpa using ⟨condition.callsAmong, whenTrue.callsAmong, whenFalse.callsAmong⟩)
  | «while» condition _ repeated =>
    exact callsAmong_branch (by simp) (by simpa using ⟨condition.callsAmong, repeated.callsAmong⟩)
  | returnNothing => exact callsAmong_branch (by simp) (by simp)
  | returnValue result => exact callsAmong_branch (by simp) (by simpa using result.callsAmong)
  | «break» => exact callsAmong_branch (by simp) (by simp)

theorem StmtsResolved.callsAmong {loops : List Nat} {k k' : Nat} {ss ss' : List Node}
    (h : StmtsResolved scopes f Γ loops k ss ss' k') : ∀ s ∈ ss, CallsAmong Γ.funcs s := by
  cases h with
  | nil => simp
  | cons first others => exact List.forall_mem_cons.mpr ⟨first.callsAmong, others.callsAmong⟩

end

/-- A type keyword and a name. -/
theorem callsAmong_typedName {funcs : List (Bytes × Signature)} {kind : Kind} {attr : Bytes}
    {loc : Location} {note : Option Annotation} {t id : Node} {ty : Ty}
    (other : kind ≠ .functionInvocation) (isType : t.kind.valueType? = some ty)
    (isId : id.kind = .id) : CallsAmong funcs ⟨kind, attr, loc, note, [t, id]⟩ := by
  have htype : CallsAmong funcs t := callsAmong_leaf (Kind.isValueType_of_valueType? isType).2
  have hid : CallsAmong funcs id := callsAmong_leaf (by rw [isId]; rfl)
  exact callsAmong_branch other (by simpa using ⟨htype, hid⟩)

theorem BodyResolved.callsAmong {k k' : Nat} {ss ss' : List Node}
    (h : BodyResolved scopes f Γ k ss ss' k') : ∀ s ∈ ss, CallsAmong Γ.funcs s := by
  induction h with
  | nil => simp
  | declaration isType _ ih =>
    exact List.forall_mem_cons.mpr ⟨callsAmong_typedName (by simp) isType rfl, ih⟩
  | statement first _ ih => exact List.forall_mem_cons.mpr ⟨first.callsAmong, ih⟩

theorem ParamsResolved.callsAmong {funcs : List (Bytes × Signature)} {own : ScopeId}
    {ps ps' : List Node} {params : List (Bytes × Ty)} (h : ParamsResolved own ps ps' params) :
    ∀ p ∈ ps, CallsAmong funcs p := by
  induction h with
  | nil => simp
  | cons isType _ ih =>
    exact List.forall_mem_cons.mpr ⟨callsAmong_typedName (by simp) isType rfl, ih⟩

variable {globals : List (Bytes × Ty)} {funcs : List (Bytes × Signature)}

theorem FunctionResolved.callsAmong {k k' : Nat} {d d' : Node} {name text : Bytes}
    {sig : Signature} (h : FunctionResolved scopes globals funcs k d d' name sig text k')
    (other : d.kind ≠ .functionInvocation) : CallsAmong funcs d := by
  cases h with
  | intro _ isResult _ _ parameters body =>
    refine callsAmong_branch other ?_
    simp only [List.forall_mem_cons]
    exact ⟨callsAmong_leaf (Kind.isType_of_type? isResult).2, callsAmong_leaf rfl,
      callsAmong_branch (by simp) parameters.callsAmong,
      callsAmong_branch (by simp) body.callsAmong, by simp⟩

theorem DeclsResolved.callsAmong {k k' : Nat} {ds ds' : List Node} {vs : List (Bytes × Ty)}
    {fs : List (Bytes × Signature)} (h : DeclsResolved scopes globals funcs k ds ds' vs fs k') :
    ∀ d ∈ ds, CallsAmong funcs d := by
  induction h with
  | nil => simp
  | entryPoint isEntry _ function _ ih =>
    exact List.forall_mem_cons.mpr ⟨function.callsAmong (by simp [isEntry]), ih⟩
  | function isFunction function _ ih =>
    exact List.forall_mem_cons.mpr ⟨function.callsAmong (by simp [isFunction]), ih⟩
  | global isType _ ih =>
    exact List.forall_mem_cons.mpr ⟨callsAmong_typedName (by simp) isType rfl, ih⟩

/-- Each call in a resolved program goes to a function of the user or of the runtime
library. -/
theorem ProgramResolved.callsAmong {root root' : Node} (h : ProgramResolved scopes root root') :
    CallsAmong scopes.globals.funcs root := by
  cases h with
  | intro _ _ _ declarations => exact callsAmong_branch (by simp) declarations.callsAmong

end Resolved

/-! ## The entry point -/

/-- A function of the user or of the runtime library has the name. -/
def HasFunction (scopes : Scopes) (name : Bytes) : Prop :=
  name ∈ scopes.globals.funcNames ∨ name ∈ scopes.builtins.funcNames

theorem func?_eq_none_iff {s : Scope} {name : Bytes} : s.func? name = none ↔ name ∉ s.funcNames :=
  lookup_eq_none_iff_not_mem

/-- The name of the entry point is refused exactly if no function has it. -/
theorem resolveCall_entryPoint_iff {scopes : Scopes} {loc : Location} :
    scopes.resolveCall scopes.globals.entryPoint loc =
        .error (.callMain scopes.globals.entryPoint loc) ↔
      ¬HasFunction scopes scopes.globals.entryPoint := by
  rw [HasFunction, not_or, ← func?_eq_none_iff, ← func?_eq_none_iff]
  unfold Scopes.resolveCall
  cases scopes.globals.func? scopes.globals.entryPoint with
  | some sig => simp
  | none => cases scopes.builtins.func? scopes.globals.entryPoint <;> simp

/-- The scope in which a call finds the function of that name, if there is one: the functions
of the user come before those of the runtime library. -/
def functionOwner (scopes : Scopes) (name : Bytes) : ScopeId :=
  if (scopes.globals.func? name).isSome then .globals else .builtins

/-- The name of a function goes to the function, and to that of the user if there are two. -/
theorem resolveCall_function {scopes : Scopes} {name : Bytes} (has : HasFunction scopes name)
    (loc : Location) :
    ∃ sig, (scopes.get (functionOwner scopes name)).func? name = some sig ∧
      scopes.resolveCall name loc = .ok (functionOwner scopes name, sig) := by
  unfold Scopes.resolveCall functionOwner
  cases hglobals : scopes.globals.func? name with
  | some sig => exact ⟨sig, hglobals, rfl⟩
  | none =>
    have noUser := func?_eq_none_iff.mp hglobals
    cases hbuiltins : scopes.builtins.func? name with
    | some sig => exact ⟨sig, hbuiltins, rfl⟩
    | none => exact absurd (has.resolve_left noUser) (func?_eq_none_iff.mp hbuiltins)

/-- The entry point that the collection records is one of the list. -/
theorem exists_entryPoint {root root' : Node} {c : Context}
    (collected : collectGlobals .initial root = (.ok (), root', c)) :
    ∃ d ∈ root.children, d.kind = .entryPointDeclaration ∧
      declaredName? d = some c.scopes.globals.entryPoint := by
  obtain ⟨ds', -, hds, named, -⟩ := collectGlobals_ok collected
  obtain ⟨-, -, rfl⟩ := (collectDeclarations_ok_iff rfl).mp ⟨ds', hds⟩
  have hlast : ((root.children.filterMap entryOf?).foldl GlobalEntry.into .globals).entryPoint =
      (((root.children.filterMap entryOf?).filterMap GlobalEntry.mainName?).getLast?).getD [] :=
    GlobalEntry.entryPoint_foldl .globals _
  change ((root.children.filterMap entryOf?).foldl GlobalEntry.into .globals).entryPoint ≠ [] at named
  change ∃ d ∈ root.children, _ ∧
    _ = some ((root.children.filterMap entryOf?).foldl GlobalEntry.into .globals).entryPoint
  rw [hlast] at named ⊢
  cases hmain : ((root.children.filterMap entryOf?).filterMap GlobalEntry.mainName?).getLast? with
  | none => exact absurd (congrArg (·.getD []) hmain) named
  | some name =>
    obtain ⟨e, he, hname⟩ := List.mem_filterMap.mp (List.mem_of_getLast? hmain)
    obtain ⟨d, hd, hentry⟩ := List.mem_filterMap.mp he
    cases e <;> cases hname
    exact ⟨d, hd, entryOf?_eq_some hentry⟩

/-- Where calls of the entry point's name go.

In a program whose declarations are collected, the name of the entry point is refused if no
function of the user or of the runtime library has it, and otherwise it goes to that function:
to the user's, and to the library's only if the user has none.  So an accepted program calls
the name only if there is such a function. -/
theorem entryPoint_called (root : Node) :
    (∀ root' c, collectGlobals .initial root = (.ok (), root', c) →
      let main := c.scopes.globals.entryPoint
      (∃ d ∈ root.children, d.kind = .entryPointDeclaration ∧ declaredName? d = some main) ∧
      ∀ loc,
        (c.scopes.resolveCall main loc = .error (.callMain main loc) ↔
          ¬HasFunction c.scopes main) ∧
        (HasFunction c.scopes main → ∃ sig,
          (c.scopes.get (functionOwner c.scopes main)).func? main = some sig ∧
            c.scopes.resolveCall main loc = .ok (functionOwner c.scopes main, sig))) ∧
    ∀ checked, checkProgram root = .ok checked → ∀ call ∈ root.calls,
      call.callee? = some checked.scopes.globals.entryPoint →
        HasFunction checked.scopes checked.scopes.globals.entryPoint := by
  refine ⟨fun root' c collected => ⟨exists_entryPoint collected, fun loc =>
    ⟨resolveCall_entryPoint_iff, fun has => resolveCall_function has loc⟩⟩, ?_⟩
  intro checked accepted call hcall hmain
  have resolved := programResolved_of_checkProgram accepted
  obtain ⟨name, hname, known⟩ := resolved.callsAmong call hcall
  rw [hmain] at hname
  cases hname
  rw [HasFunction, resolved.isBuiltins]
  exact known

/-- In the sample program no function has the name of the entry point, which is refused and
never called. -/
theorem entryPoint_called_sample :
    ∃ root' c checked, collectGlobals .initial sampleProgram = (.ok (), root', c) ∧
      checkProgram sampleProgram = .ok checked ∧
      (∀ loc, c.scopes.resolveCall c.scopes.globals.entryPoint loc =
        .error (.callMain c.scopes.globals.entryPoint loc)) ∧
      ∀ call ∈ sampleProgram.calls,
        call.callee? ≠ some checked.scopes.globals.entryPoint := by
  obtain ⟨hcollected, haccepted⟩ := entryPoint_called sampleProgram
  obtain ⟨checked, accepted⟩ := Lower.sampleProgram_accepted
  have collected : collectGlobals .initial sampleProgram =
      (.ok (), (collectGlobals .initial sampleProgram).2.1,
        (collectGlobals .initial sampleProgram).2.2) := Prod.ext rfl rfl
  have noFunction : ¬HasFunction (collectGlobals .initial sampleProgram).2.2.scopes
      (collectGlobals .initial sampleProgram).2.2.scopes.globals.entryPoint := by
    rintro (hmem | hmem)
    · exact absurd hmem (by decide)
    · exact absurd hmem (by decide)
  obtain ⟨-, hresolve⟩ := hcollected _ _ collected
  refine ⟨_, _, checked, collected, accepted, fun loc => (hresolve loc).1.mpr noFunction, ?_⟩
  intro call hcall hmain
  have has := haccepted checked accepted call hcall hmain
  rw [HasFunction, (programResolved_of_checkProgram accepted).isBuiltins,
    (acceptable_of_checkProgram accepted).2.2] at has
  rcases has with hmem | hmem
  · exact absurd hmem (by decide)
  · exact absurd hmem (by decide)

/-- The program `void halt() { halt(); }`, with `halt` as its entry point. -/
def haltingMain : Node :=
  let id (name : String) : Node := .leaf .id (utf8 name) .nowhere
  let node (kind : Kind) (children : List Node) : Node := .branch kind .nowhere children
  node .globalDeclarations [
    node .entryPointDeclaration [node .void [], id "halt", node .formalParameterList [],
      node .block [node .functionInvocation [id "halt", node .argumentList []]]]]

/-- A function `main` and behind it an entry point `main` that calls it. -/
def twoMains : Node :=
  let id (name : String) : Node := .leaf .id (utf8 name) .nowhere
  let node (kind : Kind) (children : List Node) : Node := .branch kind .nowhere children
  node .globalDeclarations [
    node .functionDeclaration [node .void [], id "main", node .formalParameterList [],
      node .block []],
    node .entryPointDeclaration [node .void [], id "main", node .formalParameterList [],
      node .block [node .functionInvocation [id "main", node .argumentList []]]]]

/-- The program is accepted, and it calls the name of its entry point, which is not refused. -/
def CallsMain (root : Node) : Prop :=
  ∃ root' c checked, collectGlobals .initial root = (.ok (), root', c) ∧
    checkProgram root = .ok checked ∧ ∃ call ∈ root.calls,
      call.callee? = some c.scopes.globals.entryPoint ∧
      c.scopes.resolveCall c.scopes.globals.entryPoint call.loc ≠
        .error (.callMain c.scopes.globals.entryPoint call.loc)

/-- A program can call the name of its entry point, be it that of a function of the runtime
library or that of a function in front of the entry point. -/
theorem entryPoint_called_by_name : CallsMain haltingMain ∧ CallsMain twoMains := by
  constructor
  · obtain ⟨checked, accepted⟩ : ∃ checked, checkProgram haltingMain = .ok checked :=
      Lower.exists_checked_of_isOk (by decide +kernel)
    exact ⟨_, _, checked, Prod.ext rfl rfl, accepted, _, List.mem_cons_self, rfl,
      fun refused => resolveCall_entryPoint_iff.mp refused (.inr (by decide))⟩
  · obtain ⟨checked, accepted⟩ : ∃ checked, checkProgram twoMains = .ok checked :=
      Lower.exists_checked_of_isOk (by decide +kernel)
    exact ⟨_, _, checked, Prod.ext rfl rfl, accepted, _, List.mem_cons_self, rfl,
      fun refused => resolveCall_entryPoint_iff.mp refused (.inl (by decide))⟩

end Check

end TreeWat
