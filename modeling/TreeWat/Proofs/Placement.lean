import TreeWat.Check.Context
import TreeWat.Proofs.Tree.Roundtrip
set_option autoImplicit false

/-!
# Trees and scopes without locations

Nodes, scopes and errors carry locations, which are handed on and never asked about.  Taking
them out therefore commutes with every function: the answer about things without locations
is the answer about the things as they are, with the locations taken out afterwards.  Here
stand the equations of the questions about nodes, scopes and contexts; the checker and the
lowering have theirs in modules of their own.
-/

namespace TreeWat

/-! ## Taking locations out -/

/-- The diagnostic without its location. -/
def Diagnostic.unplaced (d : Diagnostic) : Diagnostic :=
  { d with loc := .nowhere }

/-- The shape error without its location. -/
def ShapeError.unplaced (e : ShapeError) : ShapeError :=
  { e with loc := .nowhere }

/-- The failure without its location. -/
def Failure.unplaced : Failure → Failure
  | .user d => .user d.unplaced
  | .shape e => .shape e.unplaced
  | .fault f => .fault f

@[simp] theorem Failure.unplaced_user (d : Diagnostic) :
    (Failure.user d).unplaced = .user d.unplaced := rfl

@[simp] theorem Failure.unplaced_shape (e : ShapeError) :
    (Failure.shape e).unplaced = .shape e.unplaced := rfl

@[simp] theorem Failure.unplaced_fault (f : Fault) :
    (Failure.fault f).unplaced = .fault f := rfl

/-- The scope without the place where it begins. -/
def Scope.unplaced (s : Scope) : Scope :=
  { s with start := .nowhere }

/-- The scopes without the places where they begin. -/
def Scopes.unplaced (st : Scopes) : Scopes :=
  ⟨st.builtins.unplaced, st.globals.unplaced, st.opened.map Scope.unplaced⟩

/-- The context without the places where its scopes begin. -/
def Check.Context.unplaced (c : Check.Context) : Check.Context :=
  { c with scopes := c.scopes.unplaced }

section Answers

variable {ε α β : Type}

/-- An answer with both its error and its value mapped. -/
def mapEnds (onError : ε → ε) (onValue : α → α) : Except ε α → Except ε α
  | .ok a => .ok (onValue a)
  | .error e => .error (onError e)

@[simp] theorem mapEnds_ok (f : ε → ε) (g : α → α) (a : α) :
    mapEnds f g (.ok a) = .ok (g a) := rfl

@[simp] theorem mapEnds_error (f : ε → ε) (g : α → α) (e : ε) :
    mapEnds f g (.error e) = .error (f e) := rfl

/-- Mapping goes through a step if it goes through what follows the step. -/
theorem mapEnds_bind {f : ε → ε} {g : α → α} {h : β → β} {x : Except ε α}
    {k k' : α → Except ε β} (next : ∀ a, k' (g a) = mapEnds f h (k a)) :
    mapEnds f g x >>= k' = mapEnds f h (x >>= k) := by
  cases x with
  | error e => rfl
  | ok a => exact next a

/-- The outcome without the location of its failure. -/
def Outcome.unplaced (o : Outcome α) : Outcome α :=
  mapEnds Failure.unplaced id o

@[simp] theorem Outcome.unplaced_ok (a : α) : Outcome.unplaced (.ok a) = .ok a := rfl

@[simp] theorem Outcome.unplaced_error (f : Failure) :
    Outcome.unplaced (.error f : Outcome α) = .error f.unplaced := rfl

/-- A question about shape, answered about a tree without locations. -/
theorem Outcome.ofShape_mapEnds (g : α → α) (x : Except ShapeError α) :
    Outcome.ofShape (mapEnds ShapeError.unplaced g x)
      = mapEnds Failure.unplaced g (Outcome.ofShape x) := by
  cases x <;> rfl

end Answers

/-! ## Nodes -/

namespace Node

theorem withoutAll_eq_map (notes : Bool) (ns : List Node) :
    withoutAll notes ns = ns.map (without notes) := by
  induction ns with
  | nil => rw [withoutAll, List.map_nil]
  | cons n rest ih => rw [withoutAll, ih, List.map_cons]

@[simp] theorem unplaced_mk (kind : Kind) (attr : Bytes) (loc : Location)
    (note : Option Annotation) (children : List Node) :
    unplaced ⟨kind, attr, loc, note, children⟩
      = ⟨kind, attr, .nowhere, note, children.map unplaced⟩ := by
  rw [unplaced, without, withoutAll_eq_map]
  rfl

@[simp] theorem kind_unplaced (n : Node) : n.unplaced.kind = n.kind := by
  rcases n with ⟨kind, attr, loc, note, children⟩
  simp

@[simp] theorem attr_unplaced (n : Node) : n.unplaced.attr = n.attr := by
  rcases n with ⟨kind, attr, loc, note, children⟩
  simp

@[simp] theorem loc_unplaced (n : Node) : n.unplaced.loc = .nowhere := by
  rcases n with ⟨kind, attr, loc, note, children⟩
  simp

@[simp] theorem note_unplaced (n : Node) : n.unplaced.note = n.note := by
  rcases n with ⟨kind, attr, loc, note, children⟩
  simp

@[simp] theorem children_unplaced (n : Node) :
    n.unplaced.children = n.children.map unplaced := by
  rcases n with ⟨kind, attr, loc, note, children⟩
  simp

@[simp] theorem sig_unplaced (n : Node) : n.unplaced.sig = n.sig := by
  simp [sig]

@[simp] theorem scope?_unplaced (n : Node) : n.unplaced.scope? = n.scope? := by
  simp [scope?]

@[simp] theorem malformed_unplaced (n : Node) (cause : ShapeCause) :
    n.unplaced.malformed cause = (n.malformed cause).unplaced := by
  simp [malformed, ShapeError.unplaced]

theorem child_unplaced (n : Node) (i : Nat) :
    n.unplaced.child i = mapEnds ShapeError.unplaced unplaced (n.child i) := by
  unfold child
  rw [children_unplaced, List.getElem?_map]
  cases n.children[i]? <;> simp

theorem expect_unplaced (n : Node) (kinds : List Kind) :
    n.unplaced.expect kinds = mapEnds ShapeError.unplaced id (n.expect kinds) := by
  unfold expect
  rw [kind_unplaced]
  split <;> simp

theorem expectChildren_unplaced (n : Node) (count : Int) :
    n.unplaced.expectChildren count = mapEnds ShapeError.unplaced id (n.expectChildren count) := by
  unfold expectChildren
  rw [children_unplaced, List.length_map]
  split <;> simp

theorem annotate_unplaced (n : Node) (sig : Bytes) (scope : Option ScopeId) :
    n.unplaced.annotate sig scope
      = mapEnds ShapeError.unplaced unplaced (n.annotate sig scope) := by
  rcases n with ⟨kind, attr, loc, note, children⟩
  cases note <;> simp [annotate, malformed, ShapeError.unplaced]

mutual

/-- What the user wrote shows no locations. -/
@[simp] theorem render_unplaced : ∀ n : Node, n.unplaced.render = n.render
  | ⟨kind, attr, loc, note, children⟩ => by
    have hall := renderAll_unplaced children
    rw [unplaced_mk]
    cases kind with
    | functionInvocation =>
      match children with
      | [] => rfl
      | [callee] => simp [render]
      | callee :: ⟨listKind, listAttr, listLoc, listNote, args⟩ :: _ =>
        have hargs := renderAll_unplaced args
        simp [render, hargs]
    | binary op =>
      match children with
      | [] => rfl
      | [l] => simp [render]
      | [l, r] => simp [render, render_unplaced l, render_unplaced r]
      | _ :: _ :: _ :: _ => simp [render]
    | unary op =>
      match children with
      | [] => rfl
      | [e] => simp [render, render_unplaced e]
      | _ :: _ :: _ => simp [render]
    | _ => simp [render]

theorem renderAll_unplaced : ∀ ns : List Node, renderAll (ns.map unplaced) = renderAll ns
  | [] => rfl
  | n :: rest => by
    rw [List.map_cons, renderAll, renderAll, render_unplaced n, renderAll_unplaced rest]

end

end Node

/-! ## Scopes and contexts -/

namespace Scope

@[simp] theorem variant_unplaced (s : Scope) : s.unplaced.variant = s.variant := rfl

@[simp] theorem result_unplaced (s : Scope) : s.unplaced.result = s.result := rfl

@[simp] theorem entryPoint_unplaced (s : Scope) : s.unplaced.entryPoint = s.entryPoint := rfl

@[simp] theorem var?_unplaced (s : Scope) (name : Bytes) : s.unplaced.var? name = s.var? name :=
  rfl

@[simp] theorem func?_unplaced (s : Scope) (name : Bytes) :
    s.unplaced.func? name = s.func? name := rfl

@[simp] theorem varNames_unplaced (s : Scope) : s.unplaced.varNames = s.varNames := rfl

@[simp] theorem isGlobalStorage_unplaced (s : Scope) :
    s.unplaced.isGlobalStorage = s.isGlobalStorage := rfl

@[simp] theorem storageName_unplaced (s : Scope) (name : Bytes) :
    s.unplaced.storageName name = s.storageName name := rfl

theorem declare_unplaced (s : Scope) (name : Bytes) (ty : Ty) (loc : Location) :
    s.unplaced.declare name ty .nowhere
      = mapEnds Diagnostic.unplaced unplaced (s.declare name ty loc) := by
  have hbinds : s.unplaced.binds name = s.binds name := rfl
  unfold declare
  rw [hbinds]
  split <;> rfl

theorem declareFunc_unplaced (s : Scope) (name : Bytes) (sig : Signature) (loc : Location) :
    s.unplaced.declareFunc name sig .nowhere
      = mapEnds Diagnostic.unplaced unplaced (s.declareFunc name sig loc) := by
  have hbinds : s.unplaced.binds name = s.binds name := rfl
  unfold declareFunc
  rw [hbinds]
  split <;> rfl

theorem setEntryPoint_unplaced (s : Scope) (name : Bytes) (loc : Location) :
    s.unplaced.setEntryPoint name .nowhere
      = mapEnds Diagnostic.unplaced unplaced (s.setEntryPoint name loc) := by
  unfold setEntryPoint
  rw [entryPoint_unplaced]
  split <;> rfl

end Scope

namespace Scopes

@[simp] theorem get_unplaced (st : Scopes) (id : ScopeId) :
    st.unplaced.get id = (st.get id).unplaced := by
  cases id with
  | builtins => rfl
  | globals => rfl
  | opened n =>
    simp only [get, unplaced, List.getD_eq_getElem?_getD, List.getElem?_map]
    cases st.opened[n]? <;> rfl

@[simp] theorem globals_unplaced (st : Scopes) : st.unplaced.globals = st.globals.unplaced := rfl

@[simp] theorem builtins_unplaced (st : Scopes) : st.unplaced.builtins = st.builtins.unplaced :=
  rfl

theorem set_unplaced (st : Scopes) (id : ScopeId) (s : Scope) :
    st.unplaced.set id s.unplaced = (st.set id s).unplaced := by
  cases id with
  | builtins => rfl
  | globals => rfl
  | opened n => simp [set, unplaced, List.map_set]

theorem resolveCall_unplaced (st : Scopes) (name : Bytes) (loc : Location) :
    st.unplaced.resolveCall name .nowhere
      = mapEnds Diagnostic.unplaced id (st.resolveCall name loc) := by
  unfold resolveCall
  rw [globals_unplaced, builtins_unplaced, Scope.func?_unplaced, Scope.func?_unplaced,
    Scope.entryPoint_unplaced]
  split
  · rfl
  · split
    · rfl
    · split <;> rfl

theorem lookup_unplaced (st : Scopes) (stack : List ScopeId) (name : Bytes) (loc : Location) :
    st.unplaced.lookup stack name .nowhere
      = mapEnds Diagnostic.unplaced id (st.lookup stack name loc) := by
  unfold lookup
  simp only [get_unplaced, Scope.var?_unplaced]
  split <;> rfl

@[simp] theorem nearest?_unplaced (st : Scopes) (stack : List ScopeId) (v : Variant) :
    st.unplaced.nearest? stack v = st.nearest? stack v := by
  simp [nearest?]

end Scopes

namespace Check

namespace Context

@[simp] theorem scopes_unplaced (c : Context) : c.unplaced.scopes = c.scopes.unplaced := rfl

@[simp] theorem leave_unplaced (c : Context) : c.unplaced.leave = c.leave.unplaced := rfl

@[simp] theorem leaveBlock_unplaced (c : Context) (own : Option ScopeId) :
    c.unplaced.leaveBlock own = (c.leaveBlock own).unplaced := by
  cases own <;> rfl

@[simp] theorem nearest?_unplaced (c : Context) (v : Variant) :
    c.unplaced.nearest? v = c.nearest? v :=
  c.scopes.nearest?_unplaced c.stack v

theorem lookup_unplaced (c : Context) (name : Bytes) (loc : Location) :
    c.unplaced.lookup name .nowhere = mapEnds Diagnostic.unplaced id (c.lookup name loc) :=
  c.scopes.lookup_unplaced c.stack name loc

theorem enter_unplaced (c : Context) {make make' : Bytes → Scope}
    (same : ∀ tag, make' tag = (make tag).unplaced) :
    c.unplaced.enter make' = ((c.enter make).1.unplaced, (c.enter make).2) := by
  simp [enter, push, Scopes.add, unplaced, Scopes.unplaced, same]

theorem declare_unplaced (c : Context) (id : ScopeId) (name : Bytes) (ty : Ty) (loc : Location) :
    c.unplaced.declare id name ty .nowhere
      = mapEnds Diagnostic.unplaced unplaced (c.declare id name ty loc) := by
  unfold declare
  rw [scopes_unplaced, Scopes.get_unplaced, Scope.declare_unplaced _ _ _ loc]
  cases (c.scopes.get id).declare name ty loc with
  | error d => rfl
  | ok s =>
    simp only [mapEnds_ok, Scopes.set_unplaced]
    rfl

theorem declareFunc_unplaced (c : Context) (id : ScopeId) (name : Bytes) (sig : Signature)
    (loc : Location) :
    c.unplaced.declareFunc id name sig .nowhere
      = mapEnds Failure.unplaced unplaced (c.declareFunc id name sig loc) := by
  unfold declareFunc
  rw [scopes_unplaced, Scopes.get_unplaced, Scope.isGlobalStorage_unplaced,
    Scope.declareFunc_unplaced _ _ _ loc]
  split
  · cases (c.scopes.get id).declareFunc name sig loc with
    | error d => rfl
    | ok s =>
      simp only [mapEnds_ok, Scopes.set_unplaced]
      rfl
  · rfl

theorem setEntryPoint_unplaced (c : Context) (id : ScopeId) (name : Bytes) (loc : Location) :
    c.unplaced.setEntryPoint id name .nowhere
      = mapEnds Diagnostic.unplaced unplaced (c.setEntryPoint id name loc) := by
  unfold setEntryPoint
  rw [scopes_unplaced, Scopes.get_unplaced, Scope.setEntryPoint_unplaced _ _ loc]
  cases (c.scopes.get id).setEntryPoint name loc with
  | error d => rfl
  | ok s =>
    simp only [mapEnds_ok, Scopes.set_unplaced]
    rfl

end Context

end Check

end TreeWat
