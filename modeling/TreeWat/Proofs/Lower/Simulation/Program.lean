import TreeWat.Proofs.Lower.Meaning
import TreeWat.Proofs.Lower.Simulation.Function
set_option autoImplicit false

/-!
# Lower: calls and programs

A name calls the same function on both sides: the first declaration of that name in the
source program belongs to the first function of that name in the module.  With this, the
induction on the fuel closes the circle between functions and the calls in them, and the
entry point does what the source program does, as long as the runtime library is taken
to do what it is meant to do at once.
-/

namespace TreeWat.Lower

open Source (Value Interpreter)
open Wat (Op Callable)

/-! ## Which function a name calls -/

section Decls

variable {globals vs : List (Bytes × Ty)} {funcs fs : List (Bytes × Signature)} {ds : List Node}
  {parts : Parts} {s s' : State}

theorem FunctionCode.declares_iff {d : Node} {name : Bytes} {sig : Signature} {f : Wat.Func Op}
    (h : FunctionCode globals funcs d name sig f s s') (isFunction : d.kind = .functionDeclaration)
    (x : Bytes) : Source.declares x d = decide (name = x) := by
  cases h with
  | intro =>
    simp only at isFunction
    simp [Source.declares, isFunction]

theorem FunctionCode.params_hasValue {d : Node} {name : Bytes} {sig : Signature}
    {f : Wat.Func Op} (h : FunctionCode globals funcs d name sig f s s')
    {params : List (Bytes × Ty)} (hparams : Source.parameters? d = some params) :
    ∀ v ∈ params, v.2.hasValue = true := by
  cases h with
  | intro => exact bindings_hasValue hparams

theorem not_declares {d : Node} (other : d.kind ≠ .functionDeclaration) (x : Bytes) :
    Source.declares x d = false := by
  simp [Source.declares, other]

/-- A declared function is found on both sides. -/
theorem DeclsCode.find_function (h : DeclsCode globals funcs ds vs fs parts s s') {x : Bytes}
    {sig : Signature} (hx : fs.lookup x = some sig) :
    ∃ d f s₁ s₂, ds.find? (Source.declares x) = some d ∧
      parts.funcs.find? (·.name = globalName x) = some f ∧ d.kind = .functionDeclaration ∧
      FunctionCode globals funcs d x sig f s₁ s₂ ∧ s₂.literals.data ⊆ s'.literals.data := by
  induction h with
  | nil => cases hx
  | @entryPoint d _ _ _ f _ _ _ _ _ _ isEntry _ code _ ih =>
    obtain ⟨-, -, hentry, -⟩ := code.head
    have hname : f.name ≠ globalName x := by
      rw [(hentry isEntry).1]
      exact (globalName_ne_entryName x).symm
    rw [List.find?_cons_of_neg (by simp [not_declares, isEntry]),
      List.find?_cons_of_neg (by simpa using hname)]
    exact ih hx
  | @function d _ name sig' f _ _ _ _ s₁ _ isFunction code others ih =>
    obtain ⟨-, -, -, hfunction⟩ := code.head
    obtain ⟨hname, -⟩ := hfunction (by simp [isFunction])
    by_cases hsame : name = x
    · subst hsame
      rw [List.lookup_cons_self] at hx
      cases hx
      refine ⟨d, f, _, s₁, ?_, ?_, isFunction, code, others.data_subset⟩
      · rw [List.find?_cons_of_pos]
        rw [code.declares_iff isFunction, decide_eq_true rfl]
      · rw [List.find?_cons_of_pos]
        exact decide_eq_true hname
    · have hother : f.name ≠ globalName x := by
        rw [hname]
        exact fun heq => hsame (globalName_injective heq)
      rw [List.lookup_cons, beq_false_of_ne (Ne.symm hsame)] at hx
      rw [List.find?_cons_of_neg (by simp [code.declares_iff isFunction, hsame]),
        List.find?_cons_of_neg (by simpa using hother)]
      exact ih hx
  | global isDeclaration _ _ ih =>
    rw [List.find?_cons_of_neg (by simp [not_declares, isDeclaration])]
    exact ih hx

theorem DeclsCode.find_none (h : DeclsCode globals funcs ds vs fs parts s s') {x : Bytes}
    (hx : fs.lookup x = none) : ds.find? (Source.declares x) = none := by
  induction h with
  | nil => rfl
  | entryPoint isEntry _ _ _ ih =>
    rw [List.find?_cons_of_neg (by simp [not_declares, isEntry])]
    exact ih hx
  | @function d _ name _ _ _ _ _ _ _ _ isFunction code _ ih =>
    have hother : name ≠ x := by
      rintro rfl
      simp at hx
    rw [List.lookup_cons, beq_false_of_ne hother.symm] at hx
    rw [List.find?_cons_of_neg (by simp [code.declares_iff isFunction, hother])]
    exact ih hx
  | global isDeclaration _ _ ih =>
    rw [List.find?_cons_of_neg (by simp [not_declares, isDeclaration])]
    exact ih hx

/-- The entry point is found on both sides. -/
theorem DeclsCode.find_entry (h : DeclsCode globals funcs ds vs fs parts s s')
    (entries : 0 < entryPoints ds) :
    ∃ d f name sig s₁ s₂, ds.find? (·.kind = .entryPointDeclaration) = some d ∧
      parts.funcs.find? (·.name = entryName) = some f ∧ d.kind = .entryPointDeclaration ∧
      FunctionCode globals funcs d name sig f s₁ s₂ ∧ sig.result = .void ∧
      s₂.literals.data ⊆ s'.literals.data := by
  induction h with
  | nil => cases entries
  | @entryPoint d _ name sig f _ _ _ _ s₁ _ isEntry isVoid code others ih =>
    obtain ⟨-, -, hentry, -⟩ := code.head
    refine ⟨d, f, name, sig, _, s₁, ?_, ?_, isEntry, code, isVoid, others.data_subset⟩
    · rw [List.find?_cons_of_pos]
      exact decide_eq_true isEntry
    · rw [List.find?_cons_of_pos]
      exact decide_eq_true (hentry isEntry).1
  | @function d _ name sig f _ _ _ _ _ _ isFunction code others ih =>
    obtain ⟨-, -, -, hfunction⟩ := code.head
    obtain ⟨hname, -⟩ := hfunction (by simp [isFunction])
    have hother : f.name ≠ entryName := by
      rw [hname]
      exact globalName_ne_entryName name
    rw [entryPoints_other (by simp [isFunction])] at entries
    rw [List.find?_cons_of_neg (by simp [isFunction]),
      List.find?_cons_of_neg (by simpa using hother)]
    exact ih entries
  | global isDeclaration _ _ ih =>
    rw [entryPoints_other (by simp [isDeclaration])] at entries
    rw [List.find?_cons_of_neg (by simp [isDeclaration])]
    exact ih entries

theorem DeclsCode.vars_eq (h : DeclsCode globals funcs ds vs fs parts s s') :
    declaredBy ds = vs := by
  induction h with
  | nil => rfl
  | entryPoint isEntry _ _ _ ih => rw [declaredBy_other (by simp [isEntry]), ih]
  | function isFunction _ _ ih => rw [declaredBy_other (by simp [isFunction]), ih]
  | global isDeclaration binds _ ih => rw [declaredBy_declaration isDeclaration binds, ih]

end Decls

/-! ## Calls of the library -/

section Calls

variable {globals : List (Bytes × Ty)} {funcs : List (Bytes × Signature)} {ds : List Node}
  {parts : Parts} {s₀ s : State} {memory : Nat → Option UInt8} {source : Store Value}
  {store : Store Word}

/-- Memory holds the data, which ends before half of the address space. -/
def DataHeld (memory : Nat → Option UInt8) (data : List Wat.Data) : Prop :=
  ∃ size, size < 2 ^ 31 ∧ ∀ d ∈ data, d.LiesIn memory size

/-- A literal in memory is what `prints` writes. -/
theorem DataHeld.prints {data : List Wat.Data} (held : DataHeld memory data) {raw : Bytes}
    {offset : Nat} (hdata : ⟨offset, Wat.escapeLiteral raw⟩ ∈ data) :
    ∃ bytes, Source.literalBytes? raw = some bytes ∧ offset + Wat.literalLength raw < 2 ^ 31 ∧
      printsMeaning memory (BitVec.ofInt 32 offset) (BitVec.ofInt 32 (Wat.literalLength raw)) =
        Run.emitBytes bytes := by
  obtain ⟨size, hsize, hlies⟩ := held
  obtain ⟨offset', bytes, hoffset, htext, hend, hholds⟩ := hlies _ hdata
  obtain rfl : offset = offset' := Int.ofNat_inj.mp hoffset
  rw [Wat.decodeText_escapeLiteral] at htext
  rw [← Source.literalBytes?_length htext]
  exact ⟨bytes, htext, by omega, printsMeaning_holds hholds (by omega)⟩

theorem HoldAll.one {ty : Ty} {args : List Value} {ws : List Word} (h : HoldAll [ty] args ws) :
    ∃ v w, args = [v] ∧ ws = [w] ∧ Holds ty v [w] := by
  cases h with
  | @cons _ _ v _ w _ first others =>
    cases others
    exact ⟨v, w, rfl, rfl, first⟩

theorem match_printing {r : Run Unit} {bytes : Bytes} (hr : r = Run.emitBytes bytes)
    (related : StoreRel globals source store) :
    Run.Match (Returned globals .void) (Source.printing bytes source) (thenReturn r store) := by
  rw [hr]
  exact .ok ⟨.void, related⟩

/-- The two words of the library are what `printb` writes. -/
theorem printbMeaning_word {data : List Wat.Data} (held : DataHeld memory data)
    (words : State.library.literals.data ⊆ data) (b : Bool) :
    printbMeaning memory (Word.ofBool b) =
      Run.emitBytes (utf8 (if b then "true" else "false")) := by
  cases b with
  | true =>
    have hword : ⟨(0 : Nat), Wat.escapeLiteral (utf8 "true")⟩ ∈ data := words List.mem_cons_self
    obtain ⟨bytes, hbytes, -, hprints⟩ := held.prints hword
    cases hbytes
    exact hprints
  | false =>
    have hword : ⟨(4 : Nat), Wat.escapeLiteral (utf8 "false")⟩ ∈ data :=
      words (List.mem_cons_of_mem _ List.mem_cons_self)
    obtain ⟨bytes, hbytes, -, hprints⟩ := held.prints hword
    cases hbytes
    exact hprints

/-- A function of the library does the same on both sides. -/
theorem builtin_meant {data : List Wat.Data} (held : DataHeld memory data)
    (words : State.library.literals.data ⊆ data) {name : Bytes} {sig : Signature}
    (hname : Scope.builtinFunctions.lookup name = some sig) (valued : sig.Valued) :
    ∃ f, meant memory (libraryName name) = some f ∧ f.params = sig.params.length ∧
      ∀ {args ws source store}, HoldAll sig.params args ws → StoreRel globals source store →
        Run.Match (Returned globals sig.result) (Source.builtin name args source)
          (f.run ws store) := by
  have hmem := mem_of_lookup hname
  simp only [Scope.builtinFunctions, List.mem_cons, Prod.mk.injEq, List.not_mem_nil, or_false]
    at hmem
  rcases hmem with ⟨rfl, rfl⟩ | ⟨rfl, rfl⟩ | ⟨rfl, rfl⟩ | ⟨rfl, rfl⟩ | ⟨rfl, rfl⟩ | ⟨rfl, rfl⟩
  · refine ⟨_, rfl, rfl, ?_⟩
    intro args ws source store holds related
    cases holds
    refine .ok ⟨?_, related.globals, ?_⟩
    · rw [← related.input]
      exact .int _
    · exact congrArg (fun input i => input (i + 1)) related.input
  · refine ⟨_, rfl, rfl, ?_⟩
    intro args ws source store holds related
    cases holds
    exact .stopped rfl
  · refine ⟨takingOne (printbMeaning memory), rfl, rfl, ?_⟩
    intro args ws source store holds related
    obtain ⟨v, w, rfl, rfl, first⟩ := holds.one
    cases first with
    | boolean b => exact match_printing (printbMeaning_word held words b) related
  · refine ⟨_, rfl, rfl, ?_⟩
    intro args ws source store holds related
    obtain ⟨v, w, rfl, rfl, first⟩ := holds.one
    cases first with
    | int w => exact .ok ⟨.void, related⟩
  · refine ⟨takingOne fun x => Run.emitBytes (Bytes.ofInt x.toInt), rfl, rfl, ?_⟩
    intro args ws source store holds related
    obtain ⟨v, w, rfl, rfl, first⟩ := holds.one
    cases first with
    | int w => exact match_printing rfl related
  · exact absurd (valued.params .string List.mem_cons_self) (by decide)

theorem calls_builtin {x : Bytes} (hx : ds.find? (Source.declares x) = none) (n : Nat) :
    Source.calls ds n x = Source.builtin x := by
  cases n with
  | zero => rw [Source.calls, Source.resolve, hx]
  | succ n => rw [Source.calls, Source.resolve, hx]

/-! ## Calls of the program's functions -/

/-- A name that is not the library's is not found there. -/
theorem outside_library (memory : Nat → Option UInt8) {name : Bytes}
    (other : ∀ x, libraryName x ≠ name) :
    meant memory name = none ∧ library.find? (·.name = name) = none := by
  have hhost : (libraryImports ⟨.initial, false⟩).find? (·.name = name) = none := by
    refine List.find?_eq_none.mpr ?_
    intro i hi
    simp only [libraryImports, List.mem_cons, List.not_mem_nil, or_false] at hi
    rw [decide_eq_true_eq]
    rcases hi with rfl | rfl | rfl <;> exact other _
  have hmeanings : (meanings memory).lookup name = none := by
    rw [lookup_eq_none_iff_not_mem]
    intro hmem
    simp only [meanings, List.map_cons, List.map_nil, List.mem_cons, List.not_mem_nil,
      or_false] at hmem
    rcases hmem with heq | heq | heq <;> exact other _ heq.symm
  refine ⟨?_, List.find?_eq_none.mpr ?_⟩
  · rw [meant, host, hhost, hmeanings]
    rfl
  · intro f hf
    simp only [library, List.mem_cons, List.not_mem_nil, or_false] at hf
    rw [decide_eq_true_eq]
    rcases hf with rfl | rfl | rfl <;> exact other _

theorem link_program {name : Bytes} (other : ∀ x, libraryName x ≠ name) {f : Wat.Func Op}
    (hf : parts.funcs.find? (·.name = name) = some f)
    (enter : Wat.Func Op → List Word → Store Word → Run (Option Word × Store Word)) :
    Wat.link (meant memory) (library ++ parts.funcs) enter name =
      some ⟨f.params.length, enter f⟩ := by
  obtain ⟨hmeant, hlibrary⟩ := outside_library memory other
  rw [Wat.link, hmeant, List.find?_append, hlibrary, hf]
  rfl

/-- What a call of a program's function does on both sides. -/
def UserCalls (globals : List (Bytes × Ty)) (funcs : List (Bytes × Signature)) (ds : List Node)
    (callee : Bytes → Option Callable) (n : Nat) : Prop :=
  ∀ {x sig}, funcs.lookup x = some sig →
    ∃ f, callee (globalName x) = some f ∧ f.params = sig.params.length ∧
      ∀ {args ws source store}, HoldAll sig.params args ws → StoreRel globals source store →
        Run.Match (Returned globals sig.result) (Source.calls ds n x args source) (f.run ws store)

/-- Calls of the library do the same, so only those of the program's functions are left. -/
theorem linked_of_userCalls (code : DeclsCode globals funcs ds globals funcs parts .library s)
    (held : DataHeld memory s.literals.data) {n : Nat}
    (user : UserCalls globals funcs ds
      (Wat.callees memory (meant memory) (library ++ parts.funcs) n) n) :
    Linked globals funcs s.literals.data ⟨Source.calls ds n, n⟩
      ⟨memory, Wat.callees memory (meant memory) (library ++ parts.funcs) n, n⟩ where
  fuel := rfl
  call {name sig} resolved valued := by
    unfold Names.func? at resolved
    unfold calleeName
    cases hx : funcs.lookup name with
    | some sig' =>
      simp only [hx, Option.some_or, Option.some.injEq] at resolved
      subst resolved
      exact user hx
    | none =>
      simp only [hx, Option.none_or] at resolved
      obtain ⟨f, hf, hparams, hmatch⟩ := builtin_meant held code.data_subset resolved valued
      refine ⟨f, callee_meant hf n, hparams, ?_⟩
      intro args ws source store holds related
      show Run.Match _ (Source.calls ds n name args source) _
      rw [calls_builtin (code.find_none hx)]
      exact hmatch holds related
  halt hx args source p := by
    show (Source.calls ds n (utf8 "halt") args source).res ≠ _
    rw [calls_builtin (code.find_none hx)]
    rcases args with _ | ⟨_ | _ | _ | _, _ | _⟩ <;> exact fun h => by cases h
  prints hx := by
    refine ⟨takingTwo (printsMeaning memory), callee_meant rfl n, rfl, ?_⟩
    intro raw offset source store hdata related
    obtain ⟨bytes, hbytes, hend, hprints⟩ := held.prints hdata
    refine ⟨by omega, by omega, ?_⟩
    show Run.Match _ (Source.calls ds n (utf8 "prints") [.text raw] source) _
    rw [calls_builtin (code.find_none hx)]
    have hbuiltin : Source.builtin (utf8 "prints") [.text raw] source =
        Source.printing bytes source := by
      simp only [Source.builtin, hbytes]
      rfl
    rw [hbuiltin]
    exact match_printing hprints related

/-- Calls do the same on both sides, whatever the fuel. -/
theorem linked_callees (code : DeclsCode globals funcs ds globals funcs parts .library s)
    (held : DataHeld memory s.literals.data) (n : Nat) :
    Linked globals funcs s.literals.data ⟨Source.calls ds n, n⟩
      ⟨memory, Wat.callees memory (meant memory) (library ++ parts.funcs) n, n⟩ := by
  induction n with
  | zero =>
    refine linked_of_userCalls code held ?_
    intro x sig hx
    obtain ⟨d, f, s₁, s₂, hd, hf, isFunction, hcode, -⟩ := code.find_function hx
    obtain ⟨-, -, -, hhead⟩ := hcode.head
    refine ⟨_, link_program (fun y => libraryName_ne_globalName y x) hf _,
      (hhead (by simp [isFunction])).2, ?_⟩
    intro args ws source store _ _
    rw [Source.calls, Source.resolve, hd]
    exact .stopped rfl
  | succ n ih =>
    refine linked_of_userCalls code held ?_
    intro x sig hx
    obtain ⟨d, f, s₁, s₂, hd, hf, isFunction, hcode, hdata⟩ := code.find_function hx
    obtain ⟨-, -, -, hhead⟩ := hcode.head
    obtain ⟨params, -, -, hmatch⟩ := hcode.simulates ih hdata
    refine ⟨_, link_program (fun y => libraryName_ne_globalName y x) hf _,
      (hhead (by simp [isFunction])).2, ?_⟩
    intro args ws source store holds related
    rw [Source.calls, Source.resolve, hd]
    refine hmatch ?_ related
    rw [isFunction]
    exact holds

/-! ## Programs -/

theorem holdAll_initial {params : List (Bytes × Ty)}
    (hasValue : ∀ v ∈ params, v.2.hasValue = true) :
    HoldAll (params.map Prod.snd) (params.map fun v => Value.initial v.2)
      (params.map fun _ => 0) := by
  induction params with
  | nil => exact .nil
  | cons v rest ih =>
    exact .cons (.initial (hasValue v List.mem_cons_self))
      (ih fun v hv => hasValue v (List.mem_cons_of_mem _ hv))

/-- Global variables start at zero on both sides. -/
theorem storeRel_initial (code : DeclsCode globals funcs ds globals funcs parts s₀ s)
    (varTypes : ∀ v ∈ globals, v.2.hasValue = true) (input : Nat → Word) :
    StoreRel globals (Source.initialStore ds input) ((moduleWith parts s).store input) where
  globals {x ty} hx := by
    have hmem := mem_of_lookup hx
    have hglobal : globalName x ∈ parts.globals := by
      rw [code.globals_eq]
      exact List.mem_map.mpr ⟨(x, ty), hmem, rfl⟩
    refine ⟨.initial ty, 0, ?_, .initial (varTypes _ hmem), if_pos hglobal⟩
    simp only [Source.initialStore, code.vars_eq, hx, Option.map_some]
  input := rfl

/-- A program and its module do the same with the same fuel, if the library does what it
is meant to do at once. -/
theorem match_program {root : Node}
    (code : DeclsCode globals funcs root.children globals funcs parts .library s)
    (varTypes : ∀ v ∈ globals, v.2.hasValue = true) (entries : 0 < entryPoints root.children)
    (held : DataHeld memory s.literals.data) (input : Nat → Word) (n : Nat) :
    Run.Match (fun _ _ => True) (Source.runProgram root input n)
      ((moduleWith parts s).runAmong
        (Wat.callees memory (meant memory) (library ++ parts.funcs) n) input) := by
  obtain ⟨d, f, name, sig, s₁, s₂, hd, hf, isEntry, hcode, isVoid, hdata⟩ := code.find_entry entries
  obtain ⟨-, -, hhead, -⟩ := hcode.head
  have hparams : f.params.length = 0 := by rw [(hhead isEntry).2]; rfl
  have hstart : (moduleWith parts s).start = some entryName := by
    simp [moduleWith, (code.entry entries).1]
  cases n with
  | zero =>
    rw [Wat.callees,
      Wat.Module.runAmong_start hstart (link_program libraryName_ne_entryName hf _) hparams]
    exact .stopped rfl
  | succ n =>
    obtain ⟨params, hps, hsig, hmatch⟩ := hcode.simulates (linked_callees code held n) hdata
    have hargs : HoldAll sig.params (params.map fun v => Value.initial v.2)
        (startValues (d.kind = .entryPointDeclaration) params []) := by
      rw [isEntry, hsig]
      exact holdAll_initial (hcode.params_hasValue hps)
    rw [Wat.callees,
      Wat.Module.runAmong_start hstart (link_program libraryName_ne_entryName hf _) hparams]
    simp only [Source.runProgram, hd, Source.yieldOr, hps, Run.done_bind]
    exact (hmatch hargs (storeRel_initial code varTypes input)).bind fun _ _ _ => .pure trivial

end Calls

end TreeWat.Lower
