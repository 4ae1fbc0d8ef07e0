import Mathlib.Logic.Function.Basic
import TreeWat.Proofs.Check.Globals
set_option autoImplicit false

/-!
# Scopes: names in order beside maps

A scope answers two sorts of questions: which names it has, in which order, and what a name
stands for.  A table keeps an answer to each: a list of the names, and a map.  A declaration
writes first into the one and then into the other, and what it has written stays written if
it fails behind that.

So nothing in the data keeps a list and its map in step, nor a name from being a variable and a
function at once: the calls have to (`Consistent`).  A call that is taken makes both its
entries, and one that is refused makes none (`run_eq`).  From there the invariant is carried
along any calls (`Consistent.after`).
-/

namespace TreeWat.Scope

/-- A scope whose names and bindings are kept apart. -/
structure Table where
  variant : Variant
  tag : Bytes
  start : Location
  /-- The names of the variables, in order of declaration. -/
  names : List Bytes
  /-- The types of the variables. -/
  vars : Bytes → Option Ty
  result : Ty
  /-- The names of the functions, in order of declaration. -/
  funcNames : List Bytes
  /-- The signatures of the functions; the table of a local scope has no such map. -/
  funcs : Option (Bytes → Option Signature)
  entryPoint : Bytes

/-- A call that declares something in a scope. -/
inductive Call where
  | declare (name : Bytes) (ty : Ty) (loc : Location)
  | declareFunc (name : Bytes) (sig : Signature) (loc : Location)
  | setEntryPoint (name : Bytes) (loc : Location)

namespace Call

/-- Functions are declared in program-wide scopes only. -/
def Allowed (v : Variant) : Call → Prop
  | .declareFunc .. => v = .default ∨ v = .global
  | _ => True

/-- The name of the variable that is declared. -/
def varName? : Call → Option Bytes
  | .declare name _ _ => some name
  | _ => none

/-- The name of the function that is declared. -/
def funcName? : Call → Option Bytes
  | .declareFunc name _ _ => some name
  | _ => none

/-- The name of the variable or the function that is declared. -/
def boundName? : Call → Option Bytes
  | .declare name _ _ => some name
  | .declareFunc name _ _ => some name
  | .setEntryPoint _ _ => none

end Call

namespace Table

/-! ## Tables as they are made -/

/-- Whether variables of this scope are globals of the module. -/
def isGlobalStorage (t : Table) : Bool :=
  t.variant = .default || t.variant = .global

/-- A table without entries. -/
def empty (variant : Variant) (tag : Bytes) (start : Location) : Table where
  variant := variant
  tag := tag
  start := start
  names := []
  vars := fun _ => none
  result := .invalid
  funcNames := []
  funcs := if variant = .default ∨ variant = .global then some fun _ => none else none
  entryPoint := []

/-- The program-wide scope of the user's declarations. -/
def globals : Table :=
  empty .global (utf8 "G") .nowhere

/-- The outermost scope of a function body. -/
def function (tag : Bytes) (start : Location) (result : Ty) : Table :=
  { empty .function tag start with result := result }

/-- Enters a function. -/
def withFunction (t : Table) (name : Bytes) (sig : Signature) : Table :=
  { t with
    funcNames := t.funcNames ++ [name]
    funcs := t.funcs.map fun funcs => Function.update funcs name (some sig) }

/-- The scope of the runtime library. -/
def builtins : Table :=
  builtinFunctions.foldl (fun t f => t.withFunction f.1 f.2)
    (empty .default (utf8 "D") .nowhere)

/-! ## Questions -/

/-- The signature of a function bound in this scope. -/
def func? (t : Table) (name : Bytes) : Option Signature :=
  t.funcs.bind fun funcs => funcs name

/-- Whether a name is taken, by a variable, a function or the entry point. -/
def contains (t : Table) (name : Bytes) : Bool :=
  (t.vars name).isSome || (t.func? name).isSome
    || (!t.entryPoint.isEmpty && t.entryPoint == name)

/-! ## Declarations -/

/-- Something that writes into a table and can fail on the way.  What has been written by then
stays. -/
abbrev Action : Type :=
  ExceptT Failure (StateM Table) Unit

/-- Binds a variable. -/
def declare (name : Bytes) (ty : Ty) (loc : Location) : Action := do
  if (← get).contains name then throw (.user (.duplicateVariable name loc))
  else
    modify fun t => { t with names := t.names ++ [name] }
    modify fun t => { t with vars := Function.update t.vars name (some ty) }

/-- Writes into the map of the functions, which has to be there. -/
def bindFunction (name : Bytes) (sig : Signature) : Action := do
  match (← get).funcs with
  | none => throw (.fault (.other (utf8 "assignment to entry in nil map")))
  | some funcs => modify fun t => { t with funcs := some (Function.update funcs name (some sig)) }

/-- Binds a function, in a program-wide scope. -/
def declareFunc (name : Bytes) (sig : Signature) (loc : Location) : Action := do
  let t ← get
  if t.isGlobalStorage = false then throw (.fault (.functionInLocalScope t.variant))
  else if t.contains name then throw (.user (.duplicateFunction name loc))
  else
    modify fun t => { t with funcNames := t.funcNames ++ [name] }
    bindFunction name sig

/-- Records the entry point. -/
def setEntryPoint (name : Bytes) (loc : Location) : Action := do
  if !(← get).entryPoint.isEmpty then throw (.user (.duplicateMain name loc))
  else modify fun t => { t with entryPoint := name }

end Table

/-- The call on a table. -/
def Call.run : Call → Table.Action
  | .declare name ty loc => Table.declare name ty loc
  | .declareFunc name sig loc => Table.declareFunc name sig loc
  | .setEntryPoint name loc => Table.setEntryPoint name loc

namespace Table

variable {t : Table} {call : Call} {name : Bytes}

/-! ## One call -/

/-- The table with the entries of a call. -/
def enter (t : Table) : Call → Table
  | .declare name ty _ =>
    { t with names := t.names ++ [name], vars := Function.update t.vars name (some ty) }
  | .declareFunc name sig _ => t.withFunction name sig
  | .setEntryPoint name _ => { t with entryPoint := name }

/-- What a call is refused with, if something stands in its way. -/
def refusal? (t : Table) : Call → Option Failure
  | .declare name _ loc =>
    if t.contains name then some (.user (.duplicateVariable name loc)) else none
  | .declareFunc name _ loc =>
    if t.isGlobalStorage = false then some (.fault (.functionInLocalScope t.variant))
    else if t.contains name then some (.user (.duplicateFunction name loc))
    else none
  | .setEntryPoint name loc =>
    if t.entryPoint = [] then none else some (.user (.duplicateMain name loc))

/-- Nothing stands in the way of the call. -/
def Fits (t : Table) (call : Call) : Prop :=
  t.refusal? call = none

/-- Program-wide scopes have a map of functions, and no others. -/
def Mapped (t : Table) : Prop :=
  t.funcs.isSome = t.isGlobalStorage

theorem isGlobalStorage_eq_true_iff :
    t.isGlobalStorage = true ↔ t.variant = .default ∨ t.variant = .global := by
  simp [isGlobalStorage]

theorem fits_declare {ty : Ty} {loc : Location} :
    t.Fits (.declare name ty loc) ↔ t.contains name = false := by
  simp [Fits, refusal?]

theorem fits_declareFunc {sig : Signature} {loc : Location} :
    t.Fits (.declareFunc name sig loc) ↔
      t.isGlobalStorage = true ∧ t.contains name = false := by
  cases hstorage : t.isGlobalStorage <;> simp [Fits, refusal?, hstorage]

theorem fits_setEntryPoint {loc : Location} :
    t.Fits (.setEntryPoint name loc) ↔ t.entryPoint = [] := by
  simp [Fits, refusal?]

/-- Where functions may be declared, a call is refused for the sake of its name only. -/
theorem user_of_refusal? (allowed : call.Allowed t.variant) {f : Failure}
    (refused : t.refusal? call = some f) : ∃ d, f = .user d := by
  cases call with
  | declare name ty loc =>
    rw [refusal?] at refused
    split at refused
    · exact ⟨_, (Option.some.inj refused).symm⟩
    · cases refused
  | declareFunc name sig loc =>
    rw [refusal?, isGlobalStorage_eq_true_iff.mpr allowed, if_neg Bool.true_eq_false.mp] at refused
    split at refused
    · exact ⟨_, (Option.some.inj refused).symm⟩
    · cases refused
  | setEntryPoint name loc =>
    rw [refusal?] at refused
    split at refused
    · cases refused
    · exact ⟨_, (Option.some.inj refused).symm⟩

theorem run_get_bind (next : Table → Action) (t : Table) :
    (get >>= next).run t = (next t).run t :=
  rfl

/-- A call makes its entries, or it is refused and writes nothing. -/
theorem run_eq (mapped : t.Mapped) (call : Call) :
    call.run.run t = (t.refusal? call).elim (.ok (), t.enter call) fun f => (.error f, t) := by
  cases call with
  | declare name ty loc =>
    rw [Call.run, declare, run_get_bind, refusal?]
    split <;> rfl
  | declareFunc name sig loc =>
    rw [Call.run, declareFunc, run_get_bind, refusal?]
    split
    · rfl
    · split
      · rfl
      · rename_i storage _
        obtain ⟨funcs, hfuncs⟩ : ∃ funcs, t.funcs = some funcs :=
          Option.isSome_iff_exists.mp (mapped.trans (eq_true_of_ne_false storage))
        obtain ⟨variant, tag, start, names, vars, result, funcNames, _, entryPoint⟩ := t
        cases hfuncs
        rfl
  | setEntryPoint name loc =>
    rw [Call.run, setEntryPoint, run_get_bind, refusal?]
    cases t.entryPoint <;> rfl

theorem run_cases (mapped : t.Mapped) (call : Call) :
    (t.Fits call ∧ call.run.run t = (.ok (), t.enter call)) ∨
      ∃ f, t.refusal? call = some f ∧ call.run.run t = (.error f, t) := by
  have hrun := run_eq mapped call
  cases hrefusal : t.refusal? call with
  | none =>
    rw [hrefusal] at hrun
    exact .inl ⟨hrefusal, hrun⟩
  | some f =>
    rw [hrefusal] at hrun
    exact .inr ⟨f, rfl, hrun⟩

/-! ## The lists and the maps -/

/-- The list has the names that the map binds, each once. -/
structure Lists {α : Type} (names : List Bytes) (m : Bytes → Option α) : Prop where
  nodup : names.Nodup
  mem_iff : ∀ name, name ∈ names ↔ ∃ a, m name = some a

namespace Lists

variable {α : Type} {names : List Bytes} {m : Bytes → Option α}

theorem nil : Lists [] (fun _ => (none : Option α)) :=
  ⟨List.nodup_nil, by simp⟩

theorem not_mem (h : Lists names m) (free : m name = none) : name ∉ names := by
  simp [h.mem_iff, free]

/-- A name that is put behind the list and into the map. -/
theorem concat (h : Lists names m) (free : m name = none) (a : α) :
    Lists (names ++ [name]) (Function.update m name (some a)) where
  nodup := Check.nodup_concat.mpr ⟨h.nodup, h.not_mem free⟩
  mem_iff other := by
    by_cases same : other = name
    · subst same
      simp
    · simp [same, h.mem_iff other]

end Lists

/-- A new binding leaves the others as they are. -/
theorem update_of_some {α : Type} {m : Bytes → Option α} (free : m name = none) (a : α)
    {other : Bytes} {b : α} (bound : m other = some b) :
    Function.update m name (some a) other = some b := by
  have apart : other ≠ name := by
    rintro rfl
    rw [free] at bound
    cases bound
  rwa [Function.update_of_ne apart]

/-- The names are those that are bound, and no name is both a variable and a function. -/
structure Consistent (t : Table) : Prop where
  mapped : t.Mapped
  vars : Lists t.names t.vars
  funcs : Lists t.funcNames t.func?
  apart : ∀ name ∈ t.names, name ∉ t.funcNames

/-- Everything that the first table binds is bound in the second, and to the same. -/
structure Extends (t t' : Table) : Prop where
  vars : ∀ name ty, t.vars name = some ty → t'.vars name = some ty
  funcs : ∀ name sig, t.func? name = some sig → t'.func? name = some sig

theorem Extends.refl (t : Table) : t.Extends t :=
  ⟨fun _ _ bound => bound, fun _ _ bound => bound⟩

theorem Extends.trans {t₁ t₂ t₃ : Table} (first : t₁.Extends t₂) (second : t₂.Extends t₃) :
    t₁.Extends t₃ :=
  ⟨fun name ty bound => second.vars name ty (first.vars name ty bound),
    fun name sig bound => second.funcs name sig (first.funcs name sig bound)⟩

theorem contains_eq_false_iff :
    t.contains name = false ↔
      t.vars name = none ∧ t.func? name = none ∧ (t.entryPoint ≠ [] → t.entryPoint ≠ name) := by
  simp [contains, and_assoc]

theorem func?_withFunction (stored : t.funcs.isSome = true) (name : Bytes) (sig : Signature) :
    (t.withFunction name sig).func? = Function.update t.func? name (some sig) := by
  obtain ⟨funcs, hfuncs⟩ := Option.isSome_iff_exists.mp stored
  have hfunc : t.func? = funcs := by
    funext other
    simp [func?, hfuncs]
  rw [hfunc]
  funext other
  simp [func?, withFunction, hfuncs]

/-- The entries of a call that fits keep the lists and the maps in step, and what is bound. -/
theorem Consistent.enter (h : t.Consistent) (fits : t.Fits call) :
    (t.enter call).Consistent ∧ t.Extends (t.enter call) := by
  cases call with
  | declare name ty loc =>
    obtain ⟨noVar, noFunc, -⟩ := contains_eq_false_iff.mp (fits_declare.mp fits)
    refine ⟨⟨h.mapped, h.vars.concat noVar ty, h.funcs, ?_⟩, fun _ _ bound => ?_,
      fun _ _ bound => bound⟩
    · exact List.forall_mem_append.mpr
        ⟨h.apart, List.forall_mem_singleton.mpr (h.funcs.not_mem noFunc)⟩
    · exact update_of_some noVar ty bound
  | declareFunc name sig loc =>
    obtain ⟨storage, free⟩ := fits_declareFunc.mp fits
    obtain ⟨noVar, noFunc, -⟩ := contains_eq_false_iff.mp free
    have hfunc := func?_withFunction (h.mapped.trans storage) name sig
    refine ⟨⟨?_, h.vars, ?_, fun other hvar hfunc => ?_⟩, fun _ _ bound => bound,
      fun _ _ bound => ?_⟩
    · exact (Option.isSome_map ..).trans h.mapped
    · exact hfunc ▸ h.funcs.concat noFunc sig
    · obtain hmem | hmem := List.mem_append.mp hfunc
      · exact h.apart other hvar hmem
      · exact h.vars.not_mem noVar (List.mem_singleton.mp hmem ▸ hvar)
    · exact (congrFun hfunc _).trans (update_of_some noFunc sig bound)
  | setEntryPoint name loc =>
    exact ⟨⟨h.mapped, h.vars, h.funcs, h.apart⟩, fun _ _ bound => bound, fun _ _ bound => bound⟩

theorem enter_variant (t : Table) (call : Call) : (t.enter call).variant = t.variant := by
  cases call <;> rfl

theorem foldl_variant (t : Table) (calls : List Call) :
    (calls.foldl enter t).variant = t.variant := by
  induction calls generalizing t with
  | nil => rfl
  | cons call rest ih => exact (ih (t.enter call)).trans (enter_variant t call)

/-! ## Many calls -/

/-- The table behind some calls. -/
def after (t : Table) (calls : List Call) : Table :=
  calls.foldl (fun t call => (call.run.run t).2) t

/-- The calls that are taken, in order. -/
def taken (t : Table) : List Call → List Call
  | [] => []
  | call :: rest =>
    match call.run.run t with
    | (.ok (), t') => call :: t'.taken rest
    | (.error _, t') => t'.taken rest

/-- The calls of a list are taken one after the other. -/
def AllFit : Table → List Call → Prop
  | _, [] => True
  | t, call :: rest => t.Fits call ∧ AllFit (t.enter call) rest

theorem after_append (t : Table) (before behind : List Call) :
    t.after (before ++ behind) = (t.after before).after behind :=
  List.foldl_append

theorem Consistent.foldl (h : t.Consistent) {calls : List Call} (fit : t.AllFit calls) :
    (calls.foldl Table.enter t).Consistent ∧ t.Extends (calls.foldl Table.enter t) := by
  induction calls generalizing t with
  | nil => exact ⟨h, .refl t⟩
  | cons call rest ih =>
    obtain ⟨consistent, more⟩ := h.enter fit.1
    obtain ⟨ends, extends'⟩ := ih consistent fit.2
    exact ⟨ends, more.trans extends'⟩

/-- Behind any calls the table is what it was with the entries of the calls that were taken. -/
theorem after_calls (h : t.Consistent) (calls : List Call) :
    t.AllFit (t.taken calls) ∧ t.after calls = (t.taken calls).foldl enter t := by
  induction calls generalizing t with
  | nil => exact ⟨trivial, rfl⟩
  | cons call rest ih =>
    obtain ⟨fits, hrun⟩ | ⟨f, -, hrun⟩ := run_cases h.mapped call
    · have hafter : t.after (call :: rest) = (t.enter call).after rest := by
        rw [after, List.foldl_cons, hrun]
        rfl
      have htaken : t.taken (call :: rest) = call :: (t.enter call).taken rest := by
        rw [taken, hrun]
      obtain ⟨fit, hend⟩ := ih (h.enter fits).1
      rw [hafter, htaken]
      exact ⟨⟨fits, fit⟩, hend⟩
    · have hafter : t.after (call :: rest) = t.after rest := by
        rw [after, List.foldl_cons, hrun]
        rfl
      have htaken : t.taken (call :: rest) = t.taken rest := by
        rw [taken, hrun]
      rw [hafter, htaken]
      exact ih h

/-- Lists and maps stay in step behind any calls, and nothing that was bound is changed. -/
theorem Consistent.after (h : t.Consistent) (calls : List Call) :
    (t.after calls).Consistent ∧ t.Extends (t.after calls) ∧
      (t.after calls).variant = t.variant := by
  obtain ⟨fit, hend⟩ := after_calls h calls
  obtain ⟨consistent, more⟩ := h.foldl fit
  rw [hend]
  exact ⟨consistent, more, foldl_variant t _⟩

theorem names_foldl (t : Table) (calls : List Call) :
    (calls.foldl enter t).names = t.names ++ calls.filterMap Call.varName? := by
  induction calls generalizing t with
  | nil => simp
  | cons call rest ih =>
    rw [List.foldl_cons, ih]
    cases call <;> simp [enter, withFunction, Call.varName?, List.filterMap_cons]

theorem funcNames_foldl (t : Table) (calls : List Call) :
    (calls.foldl enter t).funcNames = t.funcNames ++ calls.filterMap Call.funcName? := by
  induction calls generalizing t with
  | nil => simp
  | cons call rest ih =>
    rw [List.foldl_cons, ih]
    cases call <;> simp [enter, withFunction, Call.funcName?, List.filterMap_cons]

/-- Behind an entry point with a name, no call that is taken declares this name. -/
theorem ne_entryPoint_of_allFit (named : t.entryPoint ≠ []) {calls : List Call}
    (fit : t.AllFit calls) : ∀ call ∈ calls, call.boundName? ≠ some t.entryPoint := by
  induction calls generalizing t with
  | nil => simp
  | cons call rest ih =>
    obtain ⟨fits, fit⟩ := fit
    have other {name : Bytes} (free : t.contains name = false) : some name ≠ some t.entryPoint :=
      fun same => (contains_eq_false_iff.mp free).2.2 named (Option.some.inj same).symm
    cases call with
    | declare name ty loc =>
      exact List.forall_mem_cons.mpr ⟨other (fits_declare.mp fits),
        ih (t := t.enter (.declare name ty loc)) named fit⟩
    | declareFunc name sig loc =>
      exact List.forall_mem_cons.mpr ⟨other (fits_declareFunc.mp fits).2,
        ih (t := t.enter (.declareFunc name sig loc)) named fit⟩
    | setEntryPoint name loc => exact absurd (fits_setEntryPoint.mp fits) named

end Table

end TreeWat.Scope
