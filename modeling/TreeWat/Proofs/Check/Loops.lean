import Mathlib.Data.List.Forall2
import TreeWat.Proofs.Check.Resolution
import TreeWat.Proofs.Check.Traced
import TreeWat.Proofs.Loops
set_option autoImplicit false

/-!
# Check: open loops

The checker opens one scope for the body of each `while` statement, in source order, so the
scopes of loops are numbered as the statements are (`Scopes.loopScopes`).  When it enters a
statement, the scopes of loops on its stack are those of the `while` statements around it,
and a `break` is noted with the first of them.

Main statements: this holds of each statement that a successful check enters
(`entered_of_checkProgram`), and the notes that a check leaves change nothing about the loops
of a program (`ProgramResolved.outline`).
-/

namespace TreeWat

/-- The scopes of loops, in the order in which they were opened. -/
def Scopes.loopScopes (scopes : Scopes) : List ScopeId :=
  ((List.range scopes.opened.length).filter fun k =>
    (scopes.get (.opened k)).variant = .loop).map .opened

namespace Check

/-- How many of the first `k` opened scopes are those of loops. -/
def loopsBefore (scopes : Scopes) (k : Nat) : Nat :=
  ((List.range k).filter fun j => (scopes.get (.opened j)).variant = .loop).length

/-- The given scopes are those of the `while` statements with the given numbers. -/
def LoopsOf (scopes : Scopes) (loops : List Nat) (ids : List ScopeId) : Prop :=
  ids.map some = loops.map fun num => scopes.loopScopes[num]?

/-- What the checker knows when it enters a statement: the scopes of loops on its stack are
those of the `while` statements around it, and a `break` is noted with the first. -/
structure Entered (scopes : Scopes) (entry : List Nat × Context) (site : Site) : Prop where
  place : entry.1 = site.place
  loops : LoopsOf scopes site.loops entry.2.openLoops
  noted : site.node.kind = .break → ∃ num outer id, site.loops = num :: outer ∧
    scopes.loopScopes[num]? = some id ∧ site.node.note = some ⟨[], some id⟩

/-- A check that opened the scopes from `k` up to `k'` entered the given sites, which hold so
many `while` statements. -/
structure InStep (scopes : Scopes) (k k' whiles : Nat) (sites : List Site) (log : Log) : Prop where
  count : loopsBefore scopes k' = loopsBefore scopes k + whiles
  entered : List.Forall₂ (Entered scopes) log sites

section Loops

variable {scopes : Scopes}

theorem loopsBefore_succ (k : Nat) : loopsBefore scopes (k + 1) =
    loopsBefore scopes k + if (scopes.get (.opened k)).variant = .loop then 1 else 0 := by
  unfold loopsBefore
  rw [List.range_succ, List.filter_append, List.length_append, List.filter_singleton]
  split <;> simp_all

/-- The scope of a loop is numbered by the loops in front of it. -/
theorem loopScopes_get {k : Nat} {s : Scope} (opened : scopes.opened[k]? = some s)
    (isLoop : s.variant = .loop) :
    scopes.loopScopes[loopsBefore scopes k]? = some (.opened k) := by
  obtain ⟨hk, -⟩ := List.getElem?_eq_some_iff.mp opened
  have hget : (scopes.get (.opened k)).variant = .loop := by
    rw [Scopes.get_opened_of_getElem? opened, isLoop]
  obtain ⟨m, hm⟩ : ∃ m, scopes.opened.length = k + (m + 1) :=
    ⟨scopes.opened.length - k - 1, by omega⟩
  have hrange : List.range (k + (m + 1)) = List.range k ++ k :: List.range' (k + 1) m := by
    rw [List.range_eq_range', List.range_eq_range', ← List.range'_append_1, List.range'_succ,
      Nat.zero_add]
  unfold Scopes.loopScopes loopsBefore
  rw [hm, hrange, List.filter_append, List.map_append, List.getElem?_append_right (by simp),
    List.length_map, Nat.sub_self, List.filter_cons_of_pos (by simpa using hget)]
  rfl

theorem LoopsOf.cons {loops : List Nat} {ids : List ScopeId} (h : LoopsOf scopes loops ids)
    {num : Nat} {id : ScopeId} (first : scopes.loopScopes[num]? = some id) :
    LoopsOf scopes (num :: loops) (id :: ids) := by
  unfold LoopsOf at h ⊢
  rw [List.map_cons, List.map_cons, h, first]

/-- A statement that is no `break`. -/
theorem Entered.other {place : List Nat} {c : Context} {n : Node} {number : Nat}
    {loops : List Nat} (h : LoopsOf scopes loops c.openLoops) (noBreak : n.kind ≠ .break) :
    Entered scopes (place, c) ⟨place, n, number, loops⟩ :=
  ⟨rfl, h, fun isBreak => absurd isBreak noBreak⟩

namespace InStep

variable {k k₁ k' : Nat}

theorem nil (k : Nat) : InStep scopes k k 0 [] [] :=
  ⟨rfl, .nil⟩

theorem append {whiles₁ whiles₂ : Nat} {sites₁ sites₂ : List Site} {log₁ log₂ : Log}
    (h₁ : InStep scopes k k₁ whiles₁ sites₁ log₁) (h₂ : InStep scopes k₁ k' whiles₂ sites₂ log₂) :
    InStep scopes k k' (whiles₁ + whiles₂) (sites₁ ++ sites₂) (log₁ ++ log₂) where
  count := by rw [h₂.count, h₁.count, Nat.add_assoc]
  entered := List.rel_append h₁.entered h₂.entered

theorem cons {whiles : Nat} {sites : List Site} {log : Log} {site : Site}
    {entry : List Nat × Context} (h : InStep scopes k k' whiles sites log)
    (entered : Entered scopes entry site) :
    InStep scopes k k' whiles (site :: sites) (entry :: log) :=
  ⟨h.count, .cons entered h.entered⟩

/-- A scope was opened in front. -/
theorem enter {whiles : Nat} {sites : List Site} {log : Log} {s : Scope}
    (opened : scopes.opened[k]? = some s) (h : InStep scopes (k + 1) k' whiles sites log) :
    InStep scopes k k' ((if s.variant = .loop then 1 else 0) + whiles) sites log where
  count := by
    rw [h.count, loopsBefore_succ, Scopes.get_opened_of_getElem? opened, Nat.add_assoc]
  entered := h.entered

end InStep

end Loops

/-! ## The log of a success -/

section Log

variable {own : Option ScopeId} {c c₁ : Context} {place : List Nat} {attr : Bytes}
  {loc : Location} {note : Option Annotation}

theorem log_block {ch : List Node} :
    (tracedCheckIn own c place ⟨.block, attr, loc, none, ch⟩).2 =
      (place, c) :: (tracedCheckAll (blockContext own c loc).1 place 0 ch).2 := by
  cases own with
  | none => simp [tracedCheckIn, Node.annotate, blockContext]
  | some id => simp [tracedCheckIn, Node.annotate, blockContext]

theorem log_ifThen {cond cond' arm : Node}
    (accepted : checkExpression c cond = (.ok .boolean, cond')) {inside : Context × ScopeId}
    (isInside : inside = c.enter fun tag => .empty .block tag arm.loc) :
    (tracedCheckIn own c place ⟨.ifThen, attr, loc, note, [cond, arm]⟩).2 =
      (place, c) :: (tracedCheckIn (some inside.2) inside.1 (place ++ [1]) arm).2 := by
  subst isInside
  simp [tracedCheckIn, checkCondition_ok_iff.mpr accepted]

theorem log_ifElse {cond cond' arm₁ arm₁' arm₂ : Node}
    (accepted : checkExpression c cond = (.ok .boolean, cond'))
    {inside₁ inside₂ : Context × ScopeId}
    (isInside₁ : inside₁ = c.enter fun tag => .empty .block tag arm₁.loc)
    (isInside₂ : inside₂ = (c₁.leaveTo c).enter fun tag => .empty .block tag arm₂.loc)
    (accepted₁ : checkStatementIn (some inside₁.2) inside₁.1 arm₁ = (.ok (), arm₁', c₁)) :
    (tracedCheckIn own c place ⟨.ifElse, attr, loc, note, [cond, arm₁, arm₂]⟩).2 =
      (place, c) :: ((tracedCheckIn (some inside₁.2) inside₁.1 (place ++ [1]) arm₁).2 ++
        (tracedCheckIn (some inside₂.2) inside₂.1 (place ++ [2]) arm₂).2) := by
  subst isInside₁ isInside₂
  rw [← leave_eq_of_checkStatementIn accepted₁]
  rw [← tracedCheckIn_fst _ _ _ (place ++ [1])] at accepted₁
  simp only [tracedCheckIn, checkCondition_ok_iff.mpr accepted]
  rcases hfirst : tracedCheckIn _ _ (place ++ [1]) arm₁ with ⟨r₁, log₁⟩
  rw [hfirst] at accepted₁
  obtain rfl : r₁ = _ := accepted₁
  rfl

theorem log_while {cond cond' body : Node}
    (accepted : checkExpression c cond = (.ok .boolean, cond')) {inside : Context × ScopeId}
    (isInside : inside = c.enter fun tag => .empty .loop tag body.loc) :
    (tracedCheckIn own c place ⟨.while, attr, loc, note, [cond, body]⟩).2 =
      (place, c) :: (tracedCheckIn (some inside.2) inside.1 (place ++ [1]) body).2 := by
  subst isInside
  simp [tracedCheckIn, checkCondition_ok_iff.mpr accepted]

/-- A statement that holds no other one is entered alone. -/
theorem log_single {n : Node} (single : n.kind ∉ [Kind.block, .ifThen, .ifElse, .while]) :
    (tracedCheckIn own c place n).2 = [(place, c)] := by
  rcases n with ⟨kind, attr, loc, note, children⟩
  cases kind
  case block | ifThen | ifElse | «while» => simp at single
  all_goals rfl

theorem log_cons {s s' : Node} {rest : List Node} {i : Nat}
    (accepted : checkStatementIn none c s = (.ok (), s', c₁)) :
    (tracedCheckAll c place i (s :: rest)).2 =
      (tracedCheckIn none c (place ++ [i]) s).2 ++ (tracedCheckAll c₁ place (i + 1) rest).2 := by
  rw [← tracedCheckIn_fst _ _ _ (place ++ [i])] at accepted
  rw [tracedCheckAll]
  rcases hfirst : tracedCheckIn none c (place ++ [i]) s with ⟨r, log⟩
  rw [hfirst] at accepted
  obtain rfl : r = _ := accepted
  rfl

/-- The body of a function is entered behind its parameters. -/
theorem log_function {kind : Kind} {resultNode name : Node} {listAttr bodyAttr : Bytes}
    {listLoc bodyLoc : Location} {listNote : Option Annotation} {ps ps' ss : List Node}
    {result : Ty} (isResult : resultNode.kind.type? = some result)
    (acceptedParams : checkParameters (c.enter fun tag => .function tag loc result).2
      (c.enter fun tag => .function tag loc result).1 ps = (.ok (), ps', c₁)) :
    (tracedCheckFunction c place ⟨kind, attr, loc, note, [resultNode, name,
      ⟨.formalParameterList, listAttr, listLoc, listNote, ps⟩,
      ⟨.block, bodyAttr, bodyLoc, none, ss⟩]⟩).2 =
      (place ++ [3], c₁) :: (tracedCheckAll c₁ (place ++ [3]) 0 ss).2 := by
  simp [tracedCheckFunction, typeOf_ok_iff.mpr isResult, acceptedParams, tracedCheckBody,
    Node.annotate]

theorem log_bodies_function {d d' : Node} {rest : List Node} {i : Nat}
    (isFunction : d.kind = .functionDeclaration ∨ d.kind = .entryPointDeclaration)
    (accepted : checkFunction c d = (.ok (), d', c₁)) :
    (tracedCheckBodiesOf c i (d :: rest)).2 =
      (tracedCheckFunction c [i] d).2 ++ (tracedCheckBodiesOf c₁ (i + 1) rest).2 := by
  rw [← tracedCheckFunction_fst c [i]] at accepted
  rw [tracedCheckBodiesOf, if_pos isFunction]
  rcases hfirst : tracedCheckFunction c [i] d with ⟨r, log⟩
  rw [hfirst] at accepted
  obtain rfl : r = _ := accepted
  rfl

theorem log_bodies_other {d : Node} {rest : List Node} {i : Nat}
    (isOther : ¬(d.kind = .functionDeclaration ∨ d.kind = .entryPointDeclaration)) :
    (tracedCheckBodiesOf c i (d :: rest)).2 = (tracedCheckBodiesOf c (i + 1) rest).2 := by
  rw [tracedCheckBodiesOf, if_neg isOther]

theorem log_program {root root' : Node} (collected : collectGlobals .initial root = (.ok (), root', c)) :
    (tracedCheckProgram root).2 = (tracedCheckBodiesOf c 0 root'.children).2 := by
  unfold tracedCheckProgram
  rw [collected]
  dsimp only
  rcases tracedCheckBodiesOf c 0 root'.children with ⟨⟨_ | ⟨⟩, ds, c'⟩, log⟩
  · rfl
  · dsimp only
    cases checkAllReturns c'.scopes { root' with children := ds } with
    | error e => rfl
    | ok _ => rfl

end Log

/-! ## Statements -/

section Statements

variable {scopes : Scopes} {f : FunctionScope} {c c' : Context} {inner : List Nat}
  {inLoop : Bool} {Γ : Names} {around : List Nat} {loops : List Nat}

theorem LoopsOf.of_frame (h : LoopsOf scopes loops c.openLoops)
    (inside : Inside f c inner inLoop Γ) (hframe : Frame c.scopes.opened.length c c') :
    LoopsOf scopes loops c'.openLoops := by
  rwa [inside.openLoops_of_frame hframe]

/-- A statement that holds no other one and is no `break`. -/
theorem inStep_of_single (own : Option ScopeId) (place : List Nat) {n n' : Node} {k number : Nat}
    (same : n'.kind = n.kind) (single : n.kind ∉ [Kind.block, .ifThen, .ifElse, .while, .break])
    (hloops : LoopsOf scopes loops c.openLoops) :
    InStep scopes k k n'.whiles (n'.sites loops number place) (tracedCheckIn own c place n).2 := by
  rcases n' with ⟨kind, attr, loc, note, children⟩
  obtain rfl : kind = n.kind := same
  rw [log_single (by simp_all)]
  generalize n.kind = kind at single
  cases kind
  case block | ifThen | ifElse | «while» | «break» => simp at single
  all_goals exact (InStep.nil _).cons (.other hloops (by simp))

/-- The statements of a nested block are entered in step if each of them is. -/
theorem inStep_of_checkStatements {ss : List Node} (final : Final scopes f Γ) (nested : inner ≠ [])
    (each : ∀ s ∈ ss, ∀ (place : List Nat) {c c' : Context} {s' : Node},
      Tracks f c inner inLoop Γ around → checkStatementIn none c s = (.ok (), s', c') →
      Settled scopes f c' → LoopsOf scopes loops c.openLoops →
      InStep scopes c.scopes.opened.length c'.scopes.opened.length s'.whiles
        (s'.sites loops (loopsBefore scopes c.scopes.opened.length) place)
        (tracedCheckIn none c place s).2)
    (place : List Nat) (i : Nat) {c c' : Context} {ss' : List Node}
    (h : Tracks f c inner inLoop Γ around)
    (accepted : checkStatements c ss = (.ok (), ss', c')) (settled : Settled scopes f c')
    (hloops : LoopsOf scopes loops c.openLoops) :
    InStep scopes c.scopes.opened.length c'.scopes.opened.length (Node.whilesAll ss')
      (Node.sitesAll loops (loopsBefore scopes c.scopes.opened.length) place i ss')
      (tracedCheckAll c place i ss).2 := by
  have frame : ∀ {s s' : Node} {c c' : Context}, Inside f c inner inLoop Γ →
      checkStatementIn none c s = (.ok (), s', c') → Frame c.scopes.opened.length c c' :=
    fun hin => checkStatementIn_frame hin (by simp) fun hnil => absurd hnil nested
  induction ss generalizing c ss' i with
  | nil =>
    obtain ⟨rfl, rfl⟩ := checkStatements_nil.mp accepted
    exact .nil _
  | cons s rest ih =>
    obtain ⟨s', c₁, rest', hs, hrest, rfl⟩ := checkStatements_cons.mp accepted
    have hfirst := frame h.toInside hs
    have hothers := checkStatements_frame (fun _ _ => frame) (h.toInside.of_frame hfirst) hrest
    have settled₁ := settled.of_frame hothers
    have hs' : checkStatementIn ((none : Option Nat).map .opened) c s = (.ok (), s', c₁) := hs
    obtain ⟨htags, -⟩ := stmtResolved_of_checkStatementIn final h (by simp)
      (fun hnil => absurd hnil nested) hs' settled₁
    have first := each s List.mem_cons_self (place ++ [i]) h hs settled₁ hloops
    have others := ih (fun s hs => each s (List.mem_cons_of_mem _ hs)) (i + 1)
      (h.of_frame hfirst htags) hrest (hloops.of_frame h.toInside hfirst)
    rw [first.count] at others
    rw [log_cons hs]
    exact first.append others

/-- A block is entered in the scope that is opened for it, or in the one that it is handed. -/
theorem inStep_of_block (final : Final scopes f Γ) {own : Option ScopeId} {attr : Bytes}
    {loc : Location} {ch ch' : List Node} (place : List Nat) (h : Tracks f c inner inLoop Γ around)
    (hown : own.isSome → inner ≠ [])
    (each : ∀ {inner : List Nat} {inLoop : Bool} {around : List Nat}, inner ≠ [] →
      ∀ s ∈ ch, ∀ (place : List Nat) {c c' : Context} {s' : Node},
        Tracks f c inner inLoop Γ around → checkStatementIn none c s = (.ok (), s', c') →
        Settled scopes f c' → LoopsOf scopes loops c.openLoops →
        InStep scopes c.scopes.opened.length c'.scopes.opened.length s'.whiles
          (s'.sites loops (loopsBefore scopes c.scopes.opened.length) place)
          (tracedCheckIn none c place s).2)
    (accepted : checkStatements (blockContext own c loc).1 ch = (.ok (), ch', c'))
    (settled : Settled scopes f (c'.leaveTo c)) (hloops : LoopsOf scopes loops c.openLoops) :
    InStep scopes c.scopes.opened.length (c'.leaveTo c).scopes.opened.length (Node.whilesAll ch')
      (Node.sites loops (loopsBefore scopes c.scopes.opened.length) place
        ⟨.block, attr, loc, some ⟨[], some (blockContext own c loc).2⟩, ch'⟩)
      (tracedCheckIn own c place ⟨.block, attr, loc, none, ch⟩).2 := by
  rw [log_block, Node.sites]
  cases own with
  | some own =>
    have statements := inStep_of_checkStatements final (hown rfl) (each (hown rfl))
      place 0 h accepted settled hloops
    exact statements.cons (.other hloops (by simp))
  | none =>
    have hin := h.enter (.inl rfl) loc
    have hframe := checkStatements_frame
      (fun s _ c c' s' hc => checkStatementIn_frame hc (by simp) (by simp)) hin.toInside accepted
    have opened := opened_of_enter h hframe settled
    have hopen : LoopsOf scopes loops (c.enter fun tag => .empty .block tag loc).1.openLoops := by
      rw [h.toInside.openLoops_enter]
      exact hloops
    have statements := inStep_of_checkStatements final (by simp) (each (by simp)) place 0
      hin accepted settled hopen
    rw [Frame.enter_length, loopsBefore_succ, Scopes.get_opened_of_getElem? opened] at statements
    have whole := statements.enter opened
    simp only [Scope.empty, reduceCtorEq, if_false, Nat.zero_add, Nat.add_zero] at whole
    exact whole.cons (.other hloops (by simp))

/-- An arm of a conditional or a loop body is entered in the scope that is opened for it. -/
theorem inStep_of_scoped {v : Variant} {arm arm' : Node} {inside : Context × ScopeId}
    (each : ∀ (place : List Nat) {own : Option ScopeId} {c c' : Context} {n' : Node}
      {inner : List Nat} {inLoop : Bool} {around loops : List Nat},
      Tracks f c inner inLoop Γ around → (own.isSome → inner ≠ []) →
      (inner = [] → arm.kind ≠ .variableDeclaration) →
      checkStatementIn own c arm = (.ok (), n', c') → Settled scopes f c' →
      LoopsOf scopes loops c.openLoops →
      InStep scopes c.scopes.opened.length c'.scopes.opened.length n'.whiles
        (n'.sites loops (loopsBefore scopes c.scopes.opened.length) place)
        (tracedCheckIn own c place arm).2)
    (place : List Nat) (h : Tracks f c inner inLoop Γ around) (hv : v = .block ∨ v = .loop)
    (isInside : inside = c.enter fun tag => .empty v tag arm.loc)
    (accepted : checkStatementIn (some inside.2) inside.1 arm = (.ok (), arm', c'))
    (settled : Settled scopes f c') (hloops : LoopsOf scopes loops c.openLoops) :
    InStep scopes c.scopes.opened.length c'.scopes.opened.length
      ((if v = .loop then 1 else 0) + arm'.whiles)
      (arm'.sites (if v = .loop then loopsBefore scopes c.scopes.opened.length :: loops else loops)
        (loopsBefore scopes c.scopes.opened.length + if v = .loop then 1 else 0) place)
      (tracedCheckIn (some inside.2) inside.1 place arm).2 := by
  subst isInside
  have hin := h.enter hv arm.loc
  have hframe := checkStatementIn_frame hin.toInside (by simp) (by simp) accepted
  have opened := opened_of_enter h hframe settled
  have hopen : LoopsOf scopes
      (if v = .loop then loopsBefore scopes c.scopes.opened.length :: loops else loops)
      (c.enter fun tag => .empty v tag arm.loc).1.openLoops := by
    rw [h.toInside.openLoops_enter]
    split
    · rename_i isLoop
      exact hloops.cons (loopScopes_get opened isLoop)
    · exact hloops
  have entered := each place hin (by simp) (by simp) accepted settled hopen
  rw [Frame.enter_length, loopsBefore_succ, Scopes.get_opened_of_getElem? opened] at entered
  exact entered.enter opened

/-- The statements that a successful check of a statement enters are those in it. -/
theorem inStep_of_checkStatementIn (final : Final scopes f Γ) {n : Node} :
    ∀ (place : List Nat) {own : Option ScopeId} {c c' : Context} {n' : Node} {inner : List Nat}
      {inLoop : Bool} {around loops : List Nat},
      Tracks f c inner inLoop Γ around → (own.isSome → inner ≠ []) →
      (inner = [] → n.kind ≠ .variableDeclaration) →
      checkStatementIn own c n = (.ok (), n', c') → Settled scopes f c' →
      LoopsOf scopes loops c.openLoops →
      InStep scopes c.scopes.opened.length c'.scopes.opened.length n'.whiles
        (n'.sites loops (loopsBefore scopes c.scopes.opened.length) place)
        (tracedCheckIn own c place n).2 := by
  induction n using Node.induction with
  | step n ih =>
    intro place own c c' n' inner inLoop around loops h hown hkind accepted settled hloops
    cases checkStatementIn_ok_iff.mp accepted with
    | @block _ loc ch ch' c' acceptedAll =>
      refine inStep_of_block final place h hown ?_ acceptedAll settled hloops
      intro inner inLoop around nested s hs place c c' s' hc haccepted
      exact ih s (Node.mem_descendants_of_child hs) place hc (by simp)
        (fun hnil => absurd hnil nested) haccepted
    | declaration isType isTop inFunction fresh =>
      obtain ⟨hnil, -⟩ := h.toInside.top_variant isTop inFunction
      exact absurd rfl (hkind hnil)
    | expression acceptedExpr => exact inStep_of_single own place rfl (by simp) hloops
    | call isCall acceptedCall =>
      have same := Lower.kind_of_checkExpression acceptedCall
      exact inStep_of_single own place same (by simp [isCall]) hloops
    | null => exact inStep_of_single own place rfl (by simp) hloops
    | @ifThen _ _ _ _ _ arm _ _ _ isInside acceptedCond acceptedArm =>
      have whenTrue := inStep_of_scoped (ih arm (Node.mem_descendants_of_child (by simp)))
        (place ++ [1]) h (.inl rfl) isInside acceptedArm settled hloops
      rw [log_ifThen acceptedCond isInside, Node.sites, Node.whiles]
      simp only [reduceCtorEq, if_false, Nat.zero_add, Nat.add_zero] at whenTrue
      exact whenTrue.cons (.other hloops (by simp))
    | @ifElse _ _ _ _ _ arm₁ _ arm₂ _ _ _ c₁ c₂ isInside₁ isInside₂ acceptedCond accepted₁
        accepted₂ =>
      obtain ⟨hframe₁, settled₁⟩ := Settled.between_arms h.toInside isInside₁ accepted₁ isInside₂
        accepted₂ settled
      obtain ⟨htags₁, -⟩ := resolved_of_scoped (stmtResolved_of_checkStatementIn final) h
        (.inl rfl) isInside₁ accepted₁ settled₁
      have whenTrue := inStep_of_scoped (ih arm₁ (Node.mem_descendants_of_child (by simp)))
        (place ++ [1]) h (.inl rfl) isInside₁ accepted₁ settled₁ hloops
      have whenFalse := inStep_of_scoped (ih arm₂ (Node.mem_descendants_of_child (by simp)))
        (place ++ [2]) (h.of_frame hframe₁ htags₁) (.inl rfl) isInside₂ accepted₂ settled
        (hloops.of_frame h.toInside hframe₁)
      have hcount : loopsBefore scopes (c₁.leaveTo c).scopes.opened.length = _ := whenTrue.count
      rw [hcount] at whenFalse
      rw [log_ifElse acceptedCond isInside₁ isInside₂ accepted₁, Node.sites, Node.whiles]
      simp only [reduceCtorEq, if_false, Nat.zero_add, Nat.add_zero] at whenTrue whenFalse
      exact (whenTrue.append whenFalse).cons (.other hloops (by simp))
    | @«while» _ _ _ _ _ body _ _ _ isInside acceptedCond acceptedBody =>
      have repeated := inStep_of_scoped (ih body (Node.mem_descendants_of_child (by simp)))
        (place ++ [1]) h (.inr rfl) isInside acceptedBody settled hloops
      rw [log_while acceptedCond isInside, Node.sites, Node.whiles]
      exact repeated.cons (.other hloops (by simp))
    | returnNothing _ _ => exact inStep_of_single own place rfl (by simp) hloops
    | returnValue _ _ acceptedValue => exact inStep_of_single own place rfl (by simp) hloops
    | «break» nearest =>
      obtain ⟨loop, outer, rfl, rfl⟩ := h.nearest_loop nearest
      rw [log_single (by simp)]
      refine (InStep.nil _).cons ⟨rfl, hloops, fun _ => ?_⟩
      have hopen := hloops
      rw [h.openLoops] at hopen
      cases loops with
      | nil => cases hopen
      | cons num rest =>
        obtain ⟨hfirst, -⟩ := List.cons.inj hopen
        exact ⟨num, rest, .opened loop, rfl, hfirst.symm, rfl⟩

end Statements

/-! ## Functions and programs -/

section Functions

variable {scopes : Scopes} {f : FunctionScope} {c c' : Context} {Γ : Names}

/-- The direct statements of a function are entered outside all loops. -/
theorem inStep_of_checkBody {ss ss' : List Node} (place : List Nat) (i : Nat)
    (h : Tracks f c [] false Γ []) (final : Final scopes f (Γ.declareAll (declaredBy ss)))
    (accepted : checkStatements c ss = (.ok (), ss', c')) (settled : Settled scopes f c') :
    InStep scopes c.scopes.opened.length c'.scopes.opened.length (Node.whilesAll ss')
      (Node.sitesAll [] (loopsBefore scopes c.scopes.opened.length) place i ss')
      (tracedCheckAll c place i ss).2 := by
  induction ss generalizing c Γ ss' i with
  | nil =>
    obtain ⟨rfl, rfl⟩ := checkStatements_nil.mp accepted
    exact .nil _
  | cons s rest ih =>
    obtain ⟨s', c₁, rest', hs, hrest, rfl⟩ := checkStatements_cons.mp accepted
    have hloops : LoopsOf scopes [] c.openLoops := by
      rw [h.openLoops]
      rfl
    rw [log_cons hs]
    by_cases isDeclaration : s.kind = .variableDeclaration
    · rw [log_single (by simp [isDeclaration])]
      cases checkStatementIn_ok_iff.mp hs with
      | @declaration _ _ _ t name _ _ ty _ isType isTop inFunction _ =>
        obtain ⟨-, rfl⟩ := h.toInside.top_variant isTop inFunction
        rw [declaredBy_declaration rfl (binding?_typedName isType),
          ← Names.declare_declareAll] at final
        have hlength : (c.bind (.opened f.number) name ty).scopes.opened.length =
            c.scopes.opened.length := by
          simp [Context.bind, Scopes.set]
        have others := ih (i + 1) (h.bind name ty) final hrest
        rw [hlength] at others
        exact ((InStep.nil _).cons (.other hloops (by simp))).append others
      | call isCall _ =>
        rw [isCall] at isDeclaration
        cases isDeclaration
      | _ => simp at isDeclaration
    · have hframe := checkStatementIn_frame h.toInside (by simp) (fun _ => isDeclaration) hs
      have hin := h.toInside.of_frame hframe
      rw [declaredBy_other isDeclaration] at final
      have settled₁ := settled.of_checkBody hin hrest
      have hs' : checkStatementIn ((none : Option Nat).map .opened) c s = (.ok (), s', c₁) := hs
      obtain ⟨htags, -⟩ := stmtResolved_of_checkStatementIn final.of_declareAll h (by simp)
        (fun _ => isDeclaration) hs' settled₁
      have first := inStep_of_checkStatementIn final.of_declareAll (place ++ [i]) h (by simp)
        (fun _ => isDeclaration) hs settled₁ hloops
      have others := ih (i + 1) (h.of_frame hframe htags) final hrest
      rw [first.count] at others
      exact first.append others

theorem inStep_of_checkFunction (h : Between c) (tags : c.tags = c.scopes.opened.length)
    (builtins : scopes.builtins = .builtins) (globals : scopes.globals = c.scopes.globals)
    (place : List Nat) {fn fn' : Node} (accepted : checkFunction c fn = (.ok (), fn', c'))
    (opened : ∀ k < c'.scopes.opened.length, scopes.opened[k]? = c'.scopes.opened[k]?) :
    c'.tags = c'.scopes.opened.length ∧ ∃ body, fn'.children[3]? = some body ∧
      InStep scopes c.scopes.opened.length c'.scopes.opened.length body.whiles
        (body.sites [] (loopsBefore scopes c.scopes.opened.length) (place ++ [3]))
        (tracedCheckFunction c place fn).2 := by
  cases checkFunction_ok_iff.mp accepted with
  | @intro _ _ loc _ _ _ _ _ _ ps ps' _ _ ss ss' result inside c₁ c₂ isInside isResult
      acceptedParams acceptedBody =>
    subst isInside
    obtain ⟨params, context⟩ :=
      bodyContext_of_checkFunction h tags builtins globals acceptedParams acceptedBody opened
    obtain ⟨htags, -⟩ := bodyResolved_of_checkStatements context.tracks context.final
      acceptedBody context.settled
    refine ⟨htags, _, rfl, ?_⟩
    have hloops : LoopsOf scopes [] c₁.openLoops := by
      rw [context.tracks.openLoops]
      rfl
    have statements := inStep_of_checkBody (place ++ [3]) 0 context.tracks context.final
      acceptedBody context.settled
    rw [context.length, loopsBefore_succ, Scopes.get_opened_of_getElem? context.own] at statements
    have whole := statements.enter context.own
    have noLoop : ((c.nextFunction loc result).scope (params ++ declaredBy ss)).variant ≠ .loop := by
      simp [FunctionScope.scope, Scope.function, Scope.empty]
    rw [if_neg noLoop, Nat.add_zero, Nat.zero_add] at whole
    rw [log_function isResult acceptedParams, Node.sites, Node.whiles]
    exact whole.cons (.other hloops (by simp))

theorem inStep_of_checkBodiesOf {ds ds' : List Node} (i : Nat) (h : Between c)
    (tags : c.tags = c.scopes.opened.length) (builtins : scopes.builtins = .builtins)
    (globals : scopes.globals = c.scopes.globals)
    (accepted : checkBodiesOf c ds = (.ok (), ds', c'))
    (opened : ∀ k < c'.scopes.opened.length, scopes.opened[k]? = c'.scopes.opened[k]?) :
    InStep scopes c.scopes.opened.length c'.scopes.opened.length (Node.whilesOf ds')
      (Node.sitesOf (loopsBefore scopes c.scopes.opened.length) i ds')
      (tracedCheckBodiesOf c i ds).2 := by
  induction ds generalizing c ds' i with
  | nil =>
    rw [checkBodiesOf] at accepted
    cases accepted
    exact .nil _
  | cons d rest ih =>
    by_cases isFunction : d.kind = .functionDeclaration ∨ d.kind = .entryPointDeclaration
    · obtain ⟨d', c₁, rest', hd, hrest, rfl⟩ := Lower.checkBodiesOf_function isFunction accepted
      have hframe := checkFunction_frame h hd
      have hothers := Lower.checkBodiesOf_frame (h.of_frame hframe) hrest
      obtain ⟨htags, body, hchild, first⟩ := inStep_of_checkFunction h tags builtins globals [i] hd
        fun k hk => (opened k (Nat.lt_of_lt_of_le hk hothers.length)).trans (hothers.opened k hk)
      have others := ih (i + 1) (h.of_frame hframe) htags (globals.trans hframe.globals.symm) hrest
      rw [first.count] at others
      have hbody : d'.functionBody? = some body := by
        unfold Node.functionBody?
        rw [Lower.kind_of_checkFunction hd, if_pos isFunction, hchild]
      rw [log_bodies_function isFunction hd, Node.sitesOf, Node.whilesOf, hbody]
      exact first.append others
    · obtain ⟨rest', hrest, rfl⟩ := Lower.checkBodiesOf_other isFunction accepted
      have others := ih (i + 1) h tags globals hrest
      have hbody : d.functionBody? = none := if_neg isFunction
      rw [log_bodies_other isFunction, Node.sitesOf, Node.whilesOf, hbody]
      dsimp only
      rw [Nat.zero_add]
      exact others

/-- The statements that a successful check of a program enters are those of the program, each
with the right scopes of loops on the stack, and there is one such scope for each `while`
statement. -/
theorem entered_of_checkProgram {root : Node} {checked : CheckedProgram}
    (accepted : checkProgram root = .ok checked) :
    ∃ log, tracedCheckProgram root = (.ok checked, log) ∧
      List.Forall₂ (Entered checked.scopes) log checked.tree.programSites ∧
      checked.scopes.loopScopes.length = Node.whilesOf checked.tree.children := by
  obtain ⟨root', c, c', ds, hcollect, hbodies, -, rfl⟩ := Lower.checkProgram_ok accepted
  have hcollected := Collected.of_collectGlobals hcollect
  obtain ⟨decls, -, hall, -, rfl⟩ := collectGlobals_ok hcollect
  have htags : c.tags = c.scopes.opened.length :=
    (tags_of_collectDeclarations hall).trans (by rw [hcollected.opened]; rfl)
  have hframe := Lower.checkBodiesOf_frame hcollected.toBetween hbodies
  have builtins : c'.scopes.builtins = .builtins := hframe.builtins.trans hcollected.builtins
  have inStep := inStep_of_checkBodiesOf 0 hcollected.toBetween htags builtins hframe.globals
    hbodies fun _ _ => rfl
  rw [hcollected.opened] at inStep
  refine ⟨_, Prod.ext ((tracedCheckProgram_fst root).trans accepted) rfl, ?_, ?_⟩
  · have entered := inStep.entered
    rw [← log_program hcollect] at entered
    exact entered
  · have count : loopsBefore c'.scopes c'.scopes.opened.length = 0 + Node.whilesOf ds :=
      inStep.count
    rw [Nat.zero_add] at count
    rw [Scopes.loopScopes, List.length_map]
    exact count

end Functions

/-! ## Notes -/

section Notes

variable {scopes : Scopes} {f : FunctionScope}

mutual

theorem StmtResolved.sameLoops {Γ : Names} {own : Option Nat} {loops : List Nat} {k k' : Nat}
    {n n' : Node} (h : StmtResolved scopes f Γ own loops k n n' k') : Node.SameLoops n n' := by
  cases h with
  | block _ statements => exact .block statements.sameLoops
  | armBlock statements => exact .block statements.sameLoops
  | ifThen _ _ whenTrue => exact .ifThen whenTrue.sameLoops
  | ifElse _ _ whenTrue _ whenFalse => exact .ifElse whenTrue.sameLoops whenFalse.sameLoops
  | «while» _ _ repeated => exact .while repeated.sameLoops
  | call isCall value =>
    cases value with
    | call => exact .single rfl (by simp)
    | _ => exact .single rfl (by simp_all)
  | _ => exact .single rfl (by simp)

theorem StmtsResolved.sameLoops {Γ : Names} {loops : List Nat} {k k' : Nat} {ss ss' : List Node}
    (h : StmtsResolved scopes f Γ loops k ss ss' k') : Node.SameLoopsAll ss ss' := by
  cases h with
  | nil => exact .nil
  | cons first others => exact .cons first.sameLoops others.sameLoops

end

theorem BodyResolved.sameLoops {Γ : Names} {k k' : Nat} {ss ss' : List Node}
    (h : BodyResolved scopes f Γ k ss ss' k') : Node.SameLoopsAll ss ss' := by
  induction h with
  | nil => exact .nil
  | declaration _ _ ih => exact .cons (.single rfl (by simp)) ih
  | statement first _ ih => exact .cons first.sameLoops ih

section Declarations

variable {globals : List (Bytes × Ty)} {funcs : List (Bytes × Signature)}

theorem FunctionResolved.sameLoops {k k' : Nat} {d d' : Node} {name text : Bytes}
    {sig : Signature} (h : FunctionResolved scopes globals funcs k d d' name sig text k')
    (isFunction : d.kind = .functionDeclaration ∨ d.kind = .entryPointDeclaration) :
    ∃ body body', d.functionBody? = some body ∧ d'.functionBody? = some body' ∧
      Node.SameLoops body body' := by
  cases h with
  | intro _ _ _ _ _ body =>
    exact ⟨_, _, if_pos isFunction, if_pos isFunction, .block body.sameLoops⟩

theorem DeclsResolved.sameLoops {k k' : Nat} {ds ds' : List Node} {vs : List (Bytes × Ty)}
    {fs : List (Bytes × Signature)} (h : DeclsResolved scopes globals funcs k ds ds' vs fs k') :
    Node.SameLoopsOf ds ds' := by
  induction h with
  | nil => exact .nil
  | entryPoint isEntry _ function _ ih =>
    obtain ⟨body, body', hbody, hbody', same⟩ := function.sameLoops (.inr isEntry)
    exact .function hbody hbody' same ih
  | function isFunction function _ ih =>
    obtain ⟨body, body', hbody, hbody', same⟩ := function.sameLoops (.inl isFunction)
    exact .function hbody hbody' same ih
  | global _ _ ih => exact .other rfl rfl ih

theorem ProgramResolved.whilesOf {root root' : Node} (h : ProgramResolved scopes root root') :
    Node.whilesOf root'.children = Node.whilesOf root.children := by
  cases h with
  | intro _ _ _ declarations => exact declarations.sameLoops.whiles

/-- The notes on a program change nothing about its loops. -/
theorem ProgramResolved.outline {root root' : Node} (h : ProgramResolved scopes root root') :
    root'.programSites.map Site.outline = root.programSites.map Site.outline := by
  cases h with
  | intro _ _ _ declarations => exact declarations.sameLoops.sites 0 0

end Declarations

end Notes

end Check

end TreeWat
