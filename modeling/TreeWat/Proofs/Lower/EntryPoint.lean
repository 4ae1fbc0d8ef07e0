import TreeWat.Proofs.Lower.Valid
set_option autoImplicit false

/-!
# Lower: entry points and start functions

The checker does not count entry points.  It keeps the name of the last one, and the empty
name stands for none, so an entry point with the empty name leaves no trace.  A program
that passes has entry points without a name, any number of them, and one with a name
behind these; each of them becomes a function with the name of the start function.
-/

namespace TreeWat

/-- The name that a function, an entry point or a variable declares. -/
def Node.declaredName? (d : Node) : Option Bytes :=
  d.children[1]?.map Node.attr

/-- The names of the entry points among global declarations, in order. -/
def entryPointNames (ds : List Node) : List Bytes :=
  (ds.filter (·.kind = .entryPointDeclaration)).filterMap Node.declaredName?

theorem entryPointNames_entryPoint {d : Node} {rest : List Node} {name : Bytes}
    (isEntry : d.kind = .entryPointDeclaration) (isName : d.declaredName? = some name) :
    entryPointNames (d :: rest) = name :: entryPointNames rest := by
  simp [entryPointNames, isEntry, isName]

theorem entryPointNames_other {d : Node} {rest : List Node}
    (other : d.kind ≠ .entryPointDeclaration) :
    entryPointNames (d :: rest) = entryPointNames rest := by
  simp [entryPointNames, other]

namespace Check

variable {c c' : Context} {ds ds' : List Node}

/-- What one more declaration does to the name of the entry point that is kept. -/
theorem DeclCollected.entryPoint_cases {d d' : Node} (h : DeclCollected c d d' c') :
    (d.kind = .entryPointDeclaration ∧ c.scopes.globals.entryPoint = [] ∧
        d.declaredName? = some c'.scopes.globals.entryPoint) ∨
      (d.kind ≠ .entryPointDeclaration ∧
        c'.scopes.globals.entryPoint = c.scopes.globals.entryPoint) := by
  cases h with
  | entryPoint _ first => exact .inl ⟨rfl, first, rfl⟩
  | function => exact .inr ⟨by simp, rfl⟩
  | global => exact .inr ⟨by simp, rfl⟩

/-- The declarations hold no entry point, or some without a name and a last one, whose
name is kept. -/
theorem entryPointNames_of_collectDeclarations
    (collected : collectDeclarations c ds = (.ok (), ds', c')) :
    (entryPointNames ds = [] ∧ c'.scopes.globals.entryPoint = c.scopes.globals.entryPoint) ∨
      c.scopes.globals.entryPoint = [] ∧
        ∃ k, entryPointNames ds = List.replicate k [] ++ [c'.scopes.globals.entryPoint] := by
  induction ds generalizing c ds' with
  | nil =>
    obtain ⟨-, rfl⟩ := collectDeclarations_nil.mp collected
    exact .inl ⟨rfl, rfl⟩
  | cons d rest ih =>
    obtain ⟨d', c₁, rest', hd, hrest, -⟩ := collectDeclarations_cons.mp collected
    rcases (DeclCollected.of_collectDeclaration hd).entryPoint_cases with
      ⟨isEntry, first, isName⟩ | ⟨other, same⟩
    · refine .inr ⟨first, ?_⟩
      rw [entryPointNames_entryPoint isEntry isName]
      rcases ih hrest with ⟨hnone, hlast⟩ | ⟨hempty, k, hnames⟩
      · exact ⟨0, by rw [hnone, hlast]; rfl⟩
      · -- another entry point can only follow because this one has no name
        exact ⟨k + 1, by rw [hempty, hnames]; rfl⟩
    · rw [entryPointNames_other other, ← same]
      exact ih hrest

/-- Every entry point of an accepted program has a name node. -/
theorem entryPoints_eq_length (collected : collectDeclarations c ds = (.ok (), ds', c')) :
    entryPoints ds = (entryPointNames ds).length := by
  induction ds generalizing c ds' with
  | nil => rfl
  | cons d rest ih =>
    obtain ⟨d', c₁, rest', hd, hrest, -⟩ := collectDeclarations_cons.mp collected
    rcases (DeclCollected.of_collectDeclaration hd).entryPoint_cases with
      ⟨isEntry, -, isName⟩ | ⟨other, -⟩
    · rw [entryPoints_entryPoint isEntry, entryPointNames_entryPoint isEntry isName,
        List.length_cons, ih hrest]
    · rw [entryPoints_other other, entryPointNames_other other, ih hrest]

end Check

namespace Lower

open Wat (Op)

/-- The entry points of a program that passed the checker: all but the last one have the
empty name, and the last one has another. -/
theorem entryPointNames_of_checkProgram {root : Node} {checked : Check.CheckedProgram}
    (accepted : Check.checkProgram root = .ok checked) :
    ∃ k last, entryPointNames root.children = List.replicate k [] ++ [last] ∧ last ≠ [] ∧
      entryPoints root.children = k + 1 := by
  obtain ⟨root', c, hcollect, -, -⟩ := collected_of_checkProgram accepted
  obtain ⟨decls, -, hdecls, hentry, -⟩ := Check.collectGlobals_ok hcollect
  have hcount := Check.entryPoints_eq_length hdecls
  rcases Check.entryPointNames_of_collectDeclarations hdecls with ⟨-, hlast⟩ | ⟨-, k, hnames⟩
  · exact absurd hlast hentry
  · refine ⟨k, _, hnames, hentry, ?_⟩
    rw [hcount, hnames]
    simp

/-- Each entry point becomes a function with the name of the start function, and nothing
else does. -/
theorem DeclsCode.count_entryName {globals vs : List (Bytes × Ty)}
    {funcs fs : List (Bytes × Signature)} {ds : List Node} {parts : Parts} {s s' : State}
    (h : DeclsCode globals funcs ds vs fs parts s s') :
    parts.funcs.countP (·.name = entryName) = entryPoints ds := by
  induction h with
  | nil => rfl
  | entryPoint isEntry _ code _ ih =>
    obtain ⟨-, -, hentry, -⟩ := code.head
    rw [entryPoints_entryPoint isEntry, List.countP_cons_of_pos (by simp [(hentry isEntry).1]), ih]
  | function isFunction code _ ih =>
    obtain ⟨-, -, -, hfunction⟩ := code.head
    have hname := (hfunction (by simp [isFunction])).1
    rw [entryPoints_other (by simp [isFunction]),
      List.countP_cons_of_neg (by simp [hname, globalName_ne_entryName]), ih]
  | global isDeclaration _ _ ih =>
    rw [entryPoints_other (by simp [isDeclaration]), ih]

theorem library_count_entryName : library.countP (·.name = entryName) = 0 := by decide

theorem entryPointNames_ne_nil_iff {ds : List Node} {k : Nat} {last : Bytes}
    (hnames : entryPointNames ds = List.replicate k [] ++ [last]) (named : last ≠ []) :
    (∀ d ∈ ds, d.kind = .entryPointDeclaration → d.declaredName? ≠ some []) ↔ k = 0 := by
  have hmem : [] ∉ entryPointNames ds ↔ k = 0 := by
    rw [hnames]
    simp [List.mem_replicate, named.symm]
  rw [← hmem]
  unfold entryPointNames
  simp only [List.mem_filterMap, List.mem_filter, decide_eq_true_eq]
  constructor
  · rintro hall ⟨d, ⟨hd, isEntry⟩, isName⟩
    exact hall d hd isEntry isName
  · intro hnone d hd isEntry isName
    exact hnone ⟨d, ⟨hd, isEntry⟩, isName⟩

/-- The module of a program that passed the checker defines the start function as often as
the program has entry points, at least once.  Both numbers are one exactly if no entry
point has the empty name. -/
theorem one_entry_iff_named {root : Node} {checked : Check.CheckedProgram}
    (accepted : Check.checkProgram root = .ok checked) (debug : Bool) :
    ∃ m, program ⟨checked.scopes, debug⟩ checked.tree = .ok m ∧
      m.funcs.countP (·.name = entryName) = entryPoints root.children ∧
      1 ≤ entryPoints root.children ∧
      ((entryPoints root.children = 1 ∧ m.funcs.countP (·.name = entryName) = 1) ↔
        ∀ d ∈ root.children, d.kind = .entryPointDeclaration → d.declaredName? ≠ some []) := by
  obtain ⟨parts, s, hmodule, hcode⟩ := declsCode_of_checkProgram accepted debug
  obtain ⟨k, last, hnames, named, hcount⟩ := entryPointNames_of_checkProgram accepted
  have hfuncs : (moduleWith parts s).funcs.countP (·.name = entryName) =
      entryPoints root.children := by
    rw [moduleWith, List.countP_append, library_count_entryName, hcode.count_entryName,
      Nat.zero_add]
  refine ⟨moduleWith parts s, program_ok hmodule, hfuncs, by omega, ?_⟩
  · rw [entryPointNames_ne_nil_iff hnames named, hfuncs]
    omega

/-- A program with two entry points, the first of which has the empty name. -/
def namelessEntry : Node :=
  let node (kind : Kind) (children : List Node) : Node := .branch kind .nowhere children
  let entry (name : String) : Node :=
    node .entryPointDeclaration [node .void [], .leaf .id (utf8 name) .nowhere,
      node .formalParameterList [], node .block []]
  node .globalDeclarations [entry "", entry "main"]

/-- The program with a nameless entry point passes the checker, and its module defines the
start function twice. -/
theorem namelessEntry_two_starts :
    ∃ checked m, Check.checkProgram namelessEntry = .ok checked ∧
      program ⟨checked.scopes, false⟩ checked.tree = .ok m ∧
      entryPoints namelessEntry.children = 2 ∧ m.funcs.countP (·.name = entryName) = 2 := by
  have hok : (Check.checkProgram namelessEntry).isOk = true := by decide +kernel
  cases hcheck : Check.checkProgram namelessEntry with
  | error f =>
    rw [hcheck] at hok
    cases hok
  | ok checked =>
    obtain ⟨m, hprogram, hcount, -⟩ := one_entry_iff_named hcheck false
    have htwo : entryPoints namelessEntry.children = 2 := by decide
    exact ⟨checked, m, rfl, hprogram, htwo, hcount.trans htwo⟩

end Lower

end TreeWat
