import TreeWat.Wat.Basic
set_option autoImplicit false

/-!
# Wat: validation of modules

The validation rules of the format, read on the instruction tree.  All values are
`i32`, so that a stack type is a height: `CodeValid Φ labels code a b` says that
`code` takes a stack of height `a` to one of height `b`.  Behind an instruction from
which control does not come back any height may be assumed.  Blocks, loops and the
arms of a conditional neither take nor leave values.
-/

namespace TreeWat.Wat

/-- What a call pops and pushes. -/
structure Arity where
  params : Nat
  results : Nat
  deriving DecidableEq, Repr

/-- What validation knows inside a function. -/
structure Scoping where
  /-- Imports and functions. -/
  funcs : List (Bytes × Arity)
  globals : List Bytes
  /-- Parameters and locals. -/
  locals : List Bytes
  /-- How many values the function returns. -/
  results : Nat

/-- A plain instruction inside blocks with the given labels takes a stack of the first
height to one of the second. -/
inductive OpValid (Φ : Scoping) (labels : List Bytes) : Op → Nat → Nat → Prop where
  | const {literal h} : OpValid Φ labels (.const literal) h (h + 1)
  | localGet {name h} (declared : name ∈ Φ.locals) : OpValid Φ labels (.localGet name) h (h + 1)
  | localSet {name h} (declared : name ∈ Φ.locals) : OpValid Φ labels (.localSet name) (h + 1) h
  | globalGet {name h} (declared : name ∈ Φ.globals) :
      OpValid Φ labels (.globalGet name) h (h + 1)
  | globalSet {name h} (declared : name ∈ Φ.globals) :
      OpValid Φ labels (.globalSet name) (h + 1) h
  | call {name arity h} (declared : (name, arity) ∈ Φ.funcs) :
      OpValid Φ labels (.call name) (h + arity.params) (h + arity.results)
  | br {label a b} (enclosing : label ∈ labels) : OpValid Φ labels (.br label) a b
  | brIf {label h} (enclosing : label ∈ labels) : OpValid Φ labels (.brIf label) (h + 1) h
  | arith {a h} : OpValid Φ labels (.arith a) (h + 2) (h + 1)
  | eqz {h} : OpValid Φ labels .eqz (h + 1) (h + 1)
  | load8 {h} : OpValid Φ labels .load8 (h + 1) (h + 1)
  | drop {h} : OpValid Φ labels .drop (h + 1) h
  | ret {h b} : OpValid Φ labels .ret (h + Φ.results) b
  | unreachable {a b} : OpValid Φ labels .unreachable a b

mutual

/-- An element of a body takes a stack of the first height to one of the second. -/
inductive InstrValid (Φ : Scoping) : List Bytes → Instr Op → Nat → Nat → Prop where
  | op {labels o a b} (valid : OpValid Φ labels o a b) : InstrValid Φ labels (.op o) a b
  | comment {labels text h} : InstrValid Φ labels (.comment text) h h
  | block {labels label body h} (valid : CodeValid Φ (label :: labels) body 0 0) :
      InstrValid Φ labels (.block label body) h h
  | loop {labels label body h} (valid : CodeValid Φ (label :: labels) body 0 0) :
      InstrValid Φ labels (.loop label body) h h
  | cond {labels whenTrue whenFalse h} (validTrue : CodeValid Φ labels whenTrue 0 0)
      (validFalse : CodeValid Φ labels whenFalse 0 0) :
      InstrValid Φ labels (.cond whenTrue whenFalse) (h + 1) h

/-- Code takes a stack of the first height to one of the second. -/
inductive CodeValid (Φ : Scoping) : List Bytes → Code → Nat → Nat → Prop where
  | nil {labels h} : CodeValid Φ labels [] h h
  | cons {labels i rest a b c} (first : InstrValid Φ labels i a b)
      (others : CodeValid Φ labels rest b c) : CodeValid Φ labels (i :: rest) a c

end

/-- The imports and functions of a module with what they pop and push. -/
def Module.arities (m : Module Op) : List (Bytes × Arity) :=
  m.imports.map (fun i => (i.name, ⟨i.params, i.result.toNat⟩)) ++
    m.funcs.map fun f => (f.name, ⟨f.params.length, f.result.toNat⟩)

/-- What is known inside a function of a module. -/
def Module.scoping (m : Module Op) (f : Func Op) : Scoping :=
  ⟨m.arities, m.globals, f.params ++ f.locals, f.result.toNat⟩

/-- The module satisfies the validation rules and has something to run. -/
structure Module.Valid (m : Module Op) : Prop where
  funcNames : (m.imports.map (·.name) ++ m.funcs.map (·.name)).Nodup
  globalNames : m.globals.Nodup
  localNames : ∀ f ∈ m.funcs, (f.params ++ f.locals).Nodup
  bodies : ∀ f ∈ m.funcs, CodeValid (m.scoping f) [] f.body 0 f.result.toNat
  start : ∃ f ∈ m.funcs, m.start = some f.name ∧ f.params = [] ∧ f.result = false

/-! ## Sequences -/

variable {Φ : Scoping} {labels : List Bytes} {a b c h : Nat}

theorem CodeValid.append {code₁ code₂ : Code} (first : CodeValid Φ labels code₁ a b)
    (second : CodeValid Φ labels code₂ b c) : CodeValid Φ labels (code₁ ++ code₂) a c := by
  induction code₁ generalizing a with
  | nil =>
    cases first
    exact second
  | cons i rest ih =>
    cases first with
    | cons hi hrest => exact .cons hi (ih hrest)

theorem CodeValid.single {i : Instr Op} (valid : InstrValid Φ labels i a b) :
    CodeValid Φ labels [i] a b :=
  .cons valid .nil

theorem CodeValid.op {o : Op} {rest : Code} (valid : OpValid Φ labels o a b)
    (others : CodeValid Φ labels rest b c) : CodeValid Φ labels (.op o :: rest) a c :=
  .cons (.op valid) others

end TreeWat.Wat
