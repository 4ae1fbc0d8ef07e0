import TreeWat.Proofs.Scope.Table
import TreeWat.Proofs.Session
set_option autoImplicit false

/-!
# Scopes: what declarations leave behind

A scope answers two sorts of questions.  Which names it has, and in which order, decides
which variables of a function are its parameters; what a name stands for decides types and
calls.  Both answers have to agree whatever is declared, in whatever order, and however many
of the declarations are refused.

The answers come from a list and from a map (`Table`).  In a session a binding stands in one
place with its name (`Scope`), and this is the same scope: each call ends alike on both, and
leaves behind both the same names and bindings (`Table.Shows.run`, `Session.shown_after`).

Main statement: the lists of names and the maps agree behind any calls, nothing that was bound
is lost or changed, no name is bound behind the entry point that has it, and a call that is
refused leaves everything as it was (`Table.declarations_kept`).
-/

namespace TreeWat

namespace Scope

variable {t : Table} {s : Scope} {name : Bytes} {call : Call}

/-! ## One scope, kept in two ways -/

/-- A scope as it is made, with nothing declared in it by hand, and its table. -/
inductive Made : Table → Scope → Prop where
  | builtins : Made .builtins .builtins
  | globals : Made .globals .globals
  | function (tag : Bytes) (start : Location) (result : Ty) :
    Made (.function tag start result) (.function tag start result)
  | block (tag : Bytes) (start : Location) :
    Made (.empty .block tag start) (.empty .block tag start)
  | loop (tag : Bytes) (start : Location) :
    Made (.empty .loop tag start) (.empty .loop tag start)

/-- The table gives the answers of the scope. -/
structure Table.Shows (t : Table) (s : Scope) : Prop where
  variant : t.variant = s.variant
  tag : t.tag = s.tag
  start : t.start = s.start
  result : t.result = s.result
  entryPoint : t.entryPoint = s.entryPoint
  names : t.names = s.varNames
  vars : t.vars = s.var?
  funcNames : t.funcNames = s.funcNames
  funcs : t.func? = s.func?

namespace Call

/-- The scope with the binding of a call. -/
def into (s : Scope) : Call → Scope
  | .declare name ty _ => { s with vars := s.vars ++ [(name, ty)] }
  | .declareFunc name sig _ => { s with funcs := s.funcs ++ [(name, sig)] }
  | .setEntryPoint name _ => { s with entryPoint := name }

/-- The call on a scope. -/
def onScope (s : Scope) : Call → Outcome Scope
  | .declare name ty loc => .ofRule (s.declare name ty loc)
  | .declareFunc name sig loc =>
    if s.isGlobalStorage then .ofRule (s.declareFunc name sig loc)
    else .error (.fault (.functionInLocalScope s.variant))
  | .setEntryPoint name loc => .ofRule (s.setEntryPoint name loc)

end Call

/-- A binding behind the others is found like one in a map, if there was none of its name. -/
theorem lookup_concat {α : Type} {vs : List (Bytes × α)} (free : vs.lookup name = none) (a : α) :
    (fun n => (vs ++ [(name, a)]).lookup n) =
      Function.update (fun n => vs.lookup n) name (some a) := by
  funext other
  rw [List.lookup_append]
  by_cases same : other = name
  · subst same
    simp [free]
  · have hbeq : (other == name) = false := beq_eq_false_iff_ne.mpr same
    simp [same, hbeq, List.lookup_cons]

namespace Table

theorem Shows.contains (h : t.Shows s) (name : Bytes) : t.contains name = s.binds name := by
  rw [Table.contains, Scope.binds, h.vars, h.funcs, h.entryPoint]

theorem Shows.isGlobalStorage (h : t.Shows s) : t.isGlobalStorage = s.isGlobalStorage := by
  rw [Table.isGlobalStorage, Scope.isGlobalStorage, h.variant]

/-- The entries of a call that fits are its binding. -/
theorem Shows.enter (h : t.Shows s) (mapped : t.Mapped) (fits : t.Fits call) :
    (t.enter call).Shows (call.into s) := by
  cases call with
  | declare name ty loc =>
    have free := (contains_eq_false_iff.mp (fits_declare.mp fits)).1
    rw [h.vars] at free
    refine { h with names := ?_, vars := ?_ }
    · exact (congrArg (· ++ [name]) h.names).trans (by simp [varNames, Call.into])
    · rw [Table.enter, h.vars]
      exact (lookup_concat free ty).symm
  | declareFunc name sig loc =>
    obtain ⟨storage, untaken⟩ := fits_declareFunc.mp fits
    have free := (contains_eq_false_iff.mp untaken).2.1
    rw [h.funcs] at free
    refine { h with funcNames := ?_, funcs := ?_ }
    · exact (congrArg (· ++ [name]) h.funcNames).trans (by simp [Scope.funcNames, Call.into])
    · rw [Table.enter, func?_withFunction (mapped.trans storage), h.funcs]
      exact (lookup_concat free sig).symm
  | setEntryPoint name loc => exact { h with entryPoint := rfl }

theorem Shows.foldl (h : t.Shows s) (consistent : t.Consistent) {calls : List Call}
    (fit : t.AllFit calls) :
    (calls.foldl Table.enter t).Shows (calls.foldl Call.into s) := by
  induction calls generalizing t s with
  | nil => exact h
  | cons call rest ih => exact ih (h.enter consistent.mapped fit.1) (consistent.enter fit.1).1 fit.2

/-- The scope refuses what the table refuses, and for the same reason. -/
theorem Shows.onScope (h : t.Shows s) (call : Call) :
    call.onScope s = (t.refusal? call).elim (.ok (call.into s)) .error := by
  cases call with
  | declare name ty loc =>
    rw [Call.onScope, Scope.declare, refusal?, h.contains]
    split <;> rfl
  | declareFunc name sig loc =>
    rw [Call.onScope, Scope.declareFunc, refusal?, h.contains, h.isGlobalStorage, h.variant]
    cases s.isGlobalStorage with
    | false => rfl
    | true => cases s.binds name <;> rfl
  | setEntryPoint name loc =>
    rw [Call.onScope, Scope.setEntryPoint, refusal?, h.entryPoint]
    cases s.entryPoint <;> rfl

/-- Each call ends alike on both: it enters the same, or it fails for the same reason and nothing
is written. -/
theorem Shows.run (h : t.Shows s) (mapped : t.Mapped) (call : Call) :
    (∃ s', call.onScope s = .ok s' ∧ call.run.run t = (.ok (), t.enter call) ∧
      (t.enter call).Shows s') ∨
    ∃ f, call.onScope s = .error f ∧ call.run.run t = (.error f, t) := by
  have hscope := h.onScope call
  obtain ⟨fits, hrun⟩ | ⟨f, hrefusal, hrun⟩ := run_cases mapped call
  · rw [show t.refusal? call = none from fits] at hscope
    exact .inl ⟨call.into s, hscope, hrun, h.enter mapped fits⟩
  · rw [hrefusal] at hscope
    exact .inr ⟨f, hscope, hrun⟩

/-! ## Tables as they are made -/

theorem consistent_empty (variant : Variant) (tag : Bytes) (start : Location) :
    (empty variant tag start).Consistent := by
  have hfunc : (empty variant tag start).func? = fun _ => none := by
    cases variant <;> rfl
  refine ⟨?_, .nil, hfunc ▸ .nil, by simp [empty]⟩
  cases variant <;> rfl

theorem shows_empty (variant : Variant) (tag : Bytes) (start : Location) :
    (empty variant tag start).Shows (Scope.empty variant tag start) := by
  refine ⟨rfl, rfl, rfl, rfl, rfl, rfl, rfl, rfl, ?_⟩
  cases variant <;> rfl

/-- The calls that would declare the functions of the runtime library. -/
def libraryCalls : List Call :=
  builtinFunctions.map fun f => .declareFunc f.1 f.2 .nowhere

theorem allFit_libraryCalls :
    (empty .default (utf8 "D") .nowhere).AllFit libraryCalls :=
  ⟨rfl, rfl, rfl, rfl, rfl, rfl, trivial⟩

end Table

theorem Made.consistent (made : Made t s) : t.Consistent ∧ t.Shows s := by
  cases made with
  | builtins =>
    have start := Table.consistent_empty .default (utf8 "D") .nowhere
    exact ⟨(start.foldl Table.allFit_libraryCalls).1,
      (Table.shows_empty .default (utf8 "D") .nowhere).foldl start Table.allFit_libraryCalls⟩
  | globals => exact ⟨Table.consistent_empty .., Table.shows_empty ..⟩
  | function tag start result =>
    obtain ⟨mapped, vars, funcs, apart⟩ := Table.consistent_empty .function tag start
    exact ⟨⟨mapped, vars, funcs, apart⟩,
      { Table.shows_empty .function tag start with result := rfl }⟩
  | block tag start => exact ⟨Table.consistent_empty .., Table.shows_empty ..⟩
  | loop tag start => exact ⟨Table.consistent_empty .., Table.shows_empty ..⟩

/-- The call as a step of a session. -/
def Call.step (scope : Bytes) : Call → SessionStep
  | .declare name ty loc => .declare scope name ty loc
  | .declareFunc name sig loc => .declareFunc scope name sig loc
  | .setEntryPoint name loc => .entryPoint scope name loc

end Scope

/-! ## Calls of a session -/

namespace Session

open Scope

variable {s : Session} {scope : Bytes} {t : Table}

/-- The scope with the given name. -/
def scopeOf (s : Session) (scope : Bytes) : Scope :=
  s.context.scopes.get (s.scopeNamed scope)

/-- The session with a scope in the place of the one with the given name. -/
def withScope (s : Session) (scope : Bytes) (made : Scope) : Session :=
  { s with context := { s.context with
    scopes := s.context.scopes.set (s.scopeNamed scope) made } }

/-- The name is that of a scope which was opened. -/
def Has (s : Session) (scope : Bytes) : Prop :=
  ∀ k, s.scopeNamed scope = .opened k → k < s.context.scopes.opened.length

/-- The session behind some calls. -/
def afterCalls (s : Session) (scope : Bytes) (calls : List Call) : Session :=
  s.after (calls.map (Call.step scope))

/-- The answer of a session to a call. -/
def answerOf : Outcome Unit → SessionAnswer
  | .ok () => .done
  | .error f => .failed f

/-- Any scope can be opened under any name. -/
theorem has_push (s : Session) (scope : Bytes) (made : Scope) :
    (s.step (.push scope made)).2.Has scope ∧
      (s.step (.push scope made)).2.scopeOf scope = made := by
  have hname : (s.step (.push scope made)).2.scopeNamed scope =
      .opened s.context.scopes.opened.length := by
    simp [Session.step, scopeNamed, Check.Context.push, Scopes.add]
  refine ⟨fun k hk => ?_, ?_⟩
  · cases hname.symm.trans hk
    simp [Session.step, Check.Context.push, Scopes.add]
  · rw [scopeOf, hname]
    simp [Session.step, Check.Context.push, Scopes.add, Scopes.get]

theorem scopeOf_withScope (has : s.Has scope) (made : Scope) :
    (s.withScope scope made).scopeOf scope = made := by
  unfold scopeOf withScope
  change (s.context.scopes.set (s.scopeNamed scope) made).get (s.scopeNamed scope) = made
  cases hname : s.scopeNamed scope with
  | builtins => rfl
  | globals => rfl
  | opened k => exact Scopes.get_set_self _ (has k hname)

theorem has_withScope (has : s.Has scope) (made : Scope) : (s.withScope scope made).Has scope := by
  intro k hname
  have hlt := has k hname
  change k < (s.context.scopes.set (s.scopeNamed scope) made).opened.length
  cases s.scopeNamed scope <;> simpa [Scopes.set] using hlt

/-- A session takes a call on one of its scopes. -/
theorem step_call (s : Session) (scope : Bytes) (call : Call) :
    s.step (call.step scope) =
      match call.onScope (s.scopeOf scope) with
      | .error f => (.failed f, s)
      | .ok made => (.done, s.withScope scope made) := by
  unfold scopeOf
  cases call with
  | declare name ty loc =>
    rw [Call.step, Session.step, Call.onScope, Check.Context.declare]
    cases (s.context.scopes.get (s.scopeNamed scope)).declare name ty loc <;> rfl
  | declareFunc name sig loc =>
    rw [Call.step, Session.step, Call.onScope, Check.Context.declareFunc]
    split
    · cases (s.context.scopes.get (s.scopeNamed scope)).declareFunc name sig loc <;> rfl
    · rfl
  | setEntryPoint name loc =>
    rw [Call.step, Session.step, Call.onScope, Check.Context.setEntryPoint]
    cases (s.context.scopes.get (s.scopeNamed scope)).setEntryPoint name loc <;> rfl

/-- The session answers a call as the table does, and shows the same behind it. -/
theorem step_shown (has : s.Has scope) (shows : t.Shows (s.scopeOf scope)) (mapped : t.Mapped)
    (call : Call) :
    (s.step (call.step scope)).1 = answerOf (call.run.run t).1 ∧
      (s.step (call.step scope)).2.Has scope ∧
      (call.run.run t).2.Shows ((s.step (call.step scope)).2.scopeOf scope) := by
  rw [step_call]
  obtain ⟨made, honScope, hrun, shows'⟩ | ⟨f, honScope, hrun⟩ := shows.run mapped call
  · rw [honScope, hrun]
    refine ⟨rfl, has_withScope has made, ?_⟩
    rw [scopeOf_withScope has]
    exact shows'
  · rw [honScope, hrun]
    exact ⟨rfl, has, shows⟩

theorem shown_after (has : s.Has scope) (shows : t.Shows (s.scopeOf scope))
    (consistent : t.Consistent) (calls : List Call) :
    (s.afterCalls scope calls).Has scope ∧
      (t.after calls).Shows ((s.afterCalls scope calls).scopeOf scope) := by
  induction calls generalizing s t with
  | nil => exact ⟨has, shows⟩
  | cons call rest ih =>
    obtain ⟨-, has', shows'⟩ := step_shown has shows consistent.mapped call
    exact ih has' shows' (consistent.after [call]).1

end Session

/-! ## What declarations leave behind -/

namespace Scope.Table

/-- A scope behind any calls, from the one it was made as.

The names it lists are those its maps bind, each once, in the order of the calls that were
taken, behind those it was made with.  Between any two moments nothing that was bound is lost
or changed, no function or variable is declared that has the name of an entry point, and the
next call is taken and makes its entries, or leaves everything as it was.  A scope of a session
that was made alike gives the same answers throughout. -/
theorem declarations_kept {t : Table} {made : Scope} (isMade : Made t made) {calls : List Call}
    (allowed : ∀ call ∈ calls, call.Allowed t.variant) :
    (t.after calls).Consistent ∧
    (t.after calls).names = t.names ++ (t.taken calls).filterMap Call.varName? ∧
    (t.after calls).funcNames = t.funcNames ++ (t.taken calls).filterMap Call.funcName? ∧
    ∀ before behind, calls = before ++ behind →
      let mid := t.after before
      mid.Extends (t.after calls) ∧
      (mid.entryPoint ≠ [] → ∀ call ∈ mid.taken behind, call.boundName? ≠ some mid.entryPoint) ∧
      (∀ call ∈ behind.head?, call.run.run mid = (.ok (), mid.enter call) ∨
        ∃ d, call.run.run mid = (.error (.user d), mid)) ∧
      ∀ (s : Session) (scope : Bytes), s.Has scope → s.scopeOf scope = made →
        mid.Shows ((s.afterCalls scope before).scopeOf scope) ∧
        ∀ call ∈ behind.head?, ((s.afterCalls scope before).step (call.step scope)).1 =
          Session.answerOf (call.run.run mid).1 := by
  obtain ⟨consistent, shows⟩ := isMade.consistent
  obtain ⟨-, hlast⟩ := after_calls consistent calls
  refine ⟨(consistent.after calls).1, ?_, ?_, ?_⟩
  · rw [hlast, names_foldl]
  · rw [hlast, funcNames_foldl]
  · rintro before behind rfl mid
    obtain ⟨consistentMid, -, hvariant⟩ := consistent.after before
    refine ⟨?_, fun named => ?_, fun call hcall => ?_, fun s scope has hscope => ?_⟩
    · rw [after_append]
      exact (consistentMid.after behind).2.1
    · exact ne_entryPoint_of_allFit named (after_calls consistentMid behind).1
    · -- a scope does not change its variant, so what was allowed stays so
      have allowedCall : call.Allowed mid.variant := hvariant.symm ▸
        allowed call (List.mem_append_right before (List.mem_of_mem_head? hcall))
      refine (run_cases consistentMid.mapped call).imp And.right ?_
      rintro ⟨f, hrefusal, hrun⟩
      obtain ⟨d, rfl⟩ := user_of_refusal? allowedCall hrefusal
      exact ⟨d, hrun⟩
    · obtain ⟨has', shows'⟩ := Session.shown_after has (hscope ▸ shows) consistent before
      exact ⟨shows', fun call _ => (Session.step_shown has' shows' consistentMid.mapped call).1⟩

/-- Calls of which every second one is refused. -/
def halfRefused : List Call :=
  [.declare (utf8 "x") .int .nowhere, .declareFunc (utf8 "x") ⟨[], .int⟩ .nowhere,
    .setEntryPoint (utf8 "main") .nowhere, .declare (utf8 "main") .boolean .nowhere,
    .declareFunc (utf8 "f") ⟨[.int], .void⟩ .nowhere, .setEntryPoint (utf8 "f") .nowhere]

/-- A session in which a scope for the declarations of a user is open. -/
def withGlobals : Session :=
  ((Session.initial false).step (.push (utf8 "U") .globals)).2

/-- The variable and the function are there with the types of the calls that were taken, and the
session gives the same answers. -/
theorem halfRefused_kept :
    Made globals .globals ∧ (∀ call ∈ halfRefused, call.Allowed globals.variant) ∧
      (globals.after halfRefused).Consistent ∧
      (globals.after halfRefused).names = [utf8 "x"] ∧
      (globals.after halfRefused).funcNames = [utf8 "f"] ∧
      (globals.after halfRefused).vars (utf8 "x") = some .int ∧
      (globals.after halfRefused).func? (utf8 "f") = some ⟨[.int], .void⟩ ∧
      (globals.after halfRefused).Shows
        ((withGlobals.afterCalls (utf8 "U") halfRefused).scopeOf (utf8 "U")) := by
  have allowed : ∀ call ∈ halfRefused, call.Allowed globals.variant := by
    simp only [halfRefused, List.forall_mem_cons]
    exact ⟨trivial, .inr rfl, trivial, trivial, .inr rfl, trivial, by simp⟩
  obtain ⟨has, hscope⟩ := Session.has_push (Session.initial false) (utf8 "U") .globals
  obtain ⟨consistent, names, funcNames, between⟩ := declarations_kept .globals allowed
  obtain ⟨-, -, -, sessions⟩ := between halfRefused [] (List.append_nil _).symm
  exact ⟨.globals, allowed, consistent, names, funcNames, rfl, rfl,
    (sessions withGlobals (utf8 "U") has hscope).1⟩

end Scope.Table

end TreeWat
