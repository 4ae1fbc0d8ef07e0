import TreeWat.Proofs.Check.Order
import TreeWat.Proofs.Check.Resolved
set_option autoImplicit false

/-!
# Check: how the collection of global declarations ends

Variables, functions and the entry point share one space of names, but not in the same way: a
function or a variable gives way to whatever has its name already, and an entry point only to
an earlier entry point.  `Clashes` says this of two declarations.  The collection goes through
the list in order, so that it gets past every declaration that clashes with none in front of
it, and the first that does is the one it reports.

Main statement: which lists are collected, what the scope of the user's declarations holds
then, and what is reported of any other list (`collectGlobals_exact`).
-/

namespace TreeWat.Check

/-! ## Declarations that clash -/

/-- The declaration `d` cannot stand behind `e`. -/
def Clashes (e d : Node) : Prop :=
  if d.kind = .entryPointDeclaration then e.kind = .entryPointDeclaration
  else declaredName? e = declaredName? d

instance (e d : Node) : Decidable (Clashes e d) :=
  inferInstanceAs (Decidable (if d.kind = .entryPointDeclaration then
    e.kind = .entryPointDeclaration else declaredName? e = declaredName? d))

/-- The declaration clashes with one of those in front of it. -/
def Conflicts (before : List Node) (d : Node) : Prop :=
  ∃ e ∈ before, Clashes e d

/-- No declaration clashes with one in front of it. -/
def Compatible (ds : List Node) : Prop :=
  ds.Pairwise fun e d => ¬Clashes e d

instance (ds : List Node) : Decidable (Compatible ds) :=
  inferInstanceAs (Decidable (ds.Pairwise fun e d => ¬Clashes e d))

/-- What is reported of a declaration, with its name, that clashes with one in front of it. -/
def conflictOf (d id : Node) : Diagnostic :=
  match d.kind with
  | .entryPointDeclaration => .duplicateMain id.attr d.loc
  | .functionDeclaration => .duplicateFunction id.attr id.loc
  | _ => .duplicateVariable id.attr id.loc

/-- There is one entry point, the names of functions and variables differ, and none behind the
entry point has its name. -/
structure DeclaredOnce (ds : List Node) : Prop where
  entryPoint : entryPoints ds = 1
  names : ((ds.filter (·.kind ≠ .entryPointDeclaration)).filterMap declaredName?).Nodup
  behind : ds.Pairwise fun m d => m.kind = .entryPointDeclaration →
    d.kind ≠ .entryPointDeclaration → declaredName? d ≠ declaredName? m

/-- The name and the signature that a function declaration brings. -/
def functionOf? (d : Node) : Option (Bytes × Signature) :=
  match d.children with
  | [resultNode, id, params, _] => do
    let result ← resultNode.kind.type?
    let bound ← params.children.mapM Node.binding?
    some (id.attr, ⟨bound.map Prod.snd, result⟩)
  | _ => none

/-- The functions declared by a list of global declarations. -/
def declaredFunctions (ds : List Node) : List (Bytes × Signature) :=
  (ds.filter (·.kind = .functionDeclaration)).filterMap functionOf?

theorem compatible_concat {ds : List Node} {d : Node} :
    Compatible (ds ++ [d]) ↔ Compatible ds ∧ ¬Conflicts ds d := by
  simp [Compatible, Conflicts, List.pairwise_append]

/-- A first conflict: the declarations in front of it have none. -/
theorem exists_conflict {ds : List Node} (clash : ¬Compatible ds) :
    ∃ before d after, ds = before ++ d :: after ∧ Compatible before ∧ Conflicts before d := by
  induction ds using List.reverseRecOn with
  | nil => exact absurd List.Pairwise.nil clash
  | append_singleton front d ih =>
    by_cases hfront : Compatible front
    · refine ⟨front, d, [], rfl, hfront, ?_⟩
      by_contra noConflict
      refine clash (compatible_concat.mpr ⟨hfront, noConflict⟩)
    · obtain ⟨before, d', after, rfl, hbefore, hconflict⟩ := ih hfront
      exact ⟨before, d', after ++ [d], by simp, hbefore, hconflict⟩

theorem countP_le_one_iff {α : Type} {p : α → Bool} {l : List α} :
    l.countP p ≤ 1 ↔ l.Pairwise fun a b => p b = true → p a ≠ true := by
  induction l with
  | nil => simp
  | cons a rest ih =>
    rw [List.countP_cons, List.pairwise_cons, ← ih]
    by_cases ha : p a = true
    · have hnone : rest.countP p = 0 ↔ ∀ b ∈ rest, ¬p b = true := List.countP_eq_zero
      simp only [ha, if_true, ne_eq, not_true, imp_false]
      constructor
      · intro h
        exact ⟨hnone.mp (by omega), by omega⟩
      · rintro ⟨h, -⟩
        have := hnone.mpr h
        omega
    · simp [ha]

/-- Two declarations clash in one of three ways. -/
theorem not_clashes_iff {e d : Node} :
    ¬Clashes e d ↔
      (d.kind = .entryPointDeclaration → e.kind ≠ .entryPointDeclaration) ∧
      (e.kind ≠ .entryPointDeclaration → d.kind ≠ .entryPointDeclaration →
        declaredName? e ≠ declaredName? d) ∧
      (e.kind = .entryPointDeclaration → d.kind ≠ .entryPointDeclaration →
        declaredName? d ≠ declaredName? e) := by
  unfold Clashes
  by_cases hd : d.kind = .entryPointDeclaration
  · simp [hd]
  · by_cases he : e.kind = .entryPointDeclaration <;> simp [hd, he, eq_comm]

/-- The names differ if any two of them do. -/
theorem nodup_names_iff {ds : List Node} (named : ∀ d ∈ ds, (declaredName? d).isSome) :
    ((ds.filter (·.kind ≠ .entryPointDeclaration)).filterMap declaredName?).Nodup ↔
      ds.Pairwise fun e d => e.kind ≠ .entryPointDeclaration →
        d.kind ≠ .entryPointDeclaration → declaredName? e ≠ declaredName? d := by
  rw [List.Nodup, List.pairwise_filterMap, List.pairwise_filter]
  refine List.Pairwise.iff_of_mem fun {e d} he hd => ?_
  obtain ⟨name, hname⟩ := Option.isSome_iff_exists.mp (named e he)
  obtain ⟨name', hname'⟩ := Option.isSome_iff_exists.mp (named d hd)
  simp [hname, hname']

theorem declaredOnce_iff {ds : List Node} (named : ∀ d ∈ ds, (declaredName? d).isSome) :
    DeclaredOnce ds ↔ Compatible ds ∧ ∃ d ∈ ds, d.kind = .entryPointDeclaration := by
  have hcompatible : Compatible ds ↔ _ := List.Pairwise.iff fun e d => not_clashes_iff
  have hone : entryPoints ds = 1 ↔ entryPoints ds ≤ 1 ∧ 0 < entryPoints ds := by omega
  have hmost : entryPoints ds ≤ 1 ↔ ds.Pairwise fun e d =>
      d.kind = .entryPointDeclaration → e.kind ≠ .entryPointDeclaration := by
    simpa [entryPoints] using
      countP_le_one_iff (p := fun d : Node => decide (d.kind = .entryPointDeclaration)) (l := ds)
  have hsome : 0 < entryPoints ds ↔ ∃ d ∈ ds, d.kind = .entryPointDeclaration := by
    simp [entryPoints, List.countP_pos_iff]
  rw [List.pairwise_and_iff, List.pairwise_and_iff, ← nodup_names_iff named, ← hmost] at hcompatible
  rw [hcompatible, ← hsome]
  constructor
  · rintro ⟨entryPoint, names, behind⟩
    obtain ⟨most, some⟩ := hone.mp entryPoint
    exact ⟨⟨most, names, behind⟩, some⟩
  · rintro ⟨⟨most, names, behind⟩, some⟩
    exact ⟨hone.mpr ⟨most, some⟩, names, behind⟩

/-! ## Heads of declarations -/

/-- The head of a global declaration is laid out, and so are the parameters of a function.  What
is in its body is left open. -/
structure HeadLaidOut (d : Node) : Prop where
  isDeclaration : d.kind.isDeclaration = true
  laidOut : d.LaidOut
  parameters : d.kind = .functionDeclaration → ∀ params ∈ d.children[2]?,
    params.LaidOut ∧ ∀ p ∈ params.children, p.LaidOut

/-- A list of global declarations whose heads are laid out. -/
structure HeadsLaidOut (root : Node) : Prop where
  globals : root.kind = .globalDeclarations
  heads : ∀ d ∈ root.children, HeadLaidOut d

/-- The declarations of a program have heads that are laid out. -/
theorem headsLaidOut_of_isProgram {root : Node} (layout : root.IsProgram) :
    HeadsLaidOut root := by
  have isDeclaration : ∀ d ∈ root.children, d.kind.isDeclaration = true := by
    have fits := layout.conforms.self
    rw [Node.LaidOut, layout.globals] at fits
    simpa [Kind.layout, Layout.fits] using fits
  refine ⟨layout.globals, fun d hd => ?_⟩
  have conforms := layout.conforms.child hd
  refine ⟨isDeclaration d hd, conforms.self, fun _ params hparams => ?_⟩
  have below := conforms.child (List.mem_of_getElem? hparams)
  exact ⟨below.self, fun p hp => (below.child hp).self⟩

/-! ## What declarations enter -/

theorem fillPlaces_two {p q : Kind → Bool} {ns : List Node}
    (fits : fillPlaces [p, q] (ns.map Node.kind) = true) :
    ∃ a b, ns = [a, b] ∧ p a.kind = true ∧ q b.kind = true := by
  match ns, fits with
  | [a, b], fits => exact ⟨a, b, rfl, by simpa [fillPlaces] using fits⟩
  | [], fits | [_], fits | _ :: _ :: _ :: _, fits => simp [fillPlaces] at fits

theorem fillPlaces_four {p q r s : Kind → Bool} {ns : List Node}
    (fits : fillPlaces [p, q, r, s] (ns.map Node.kind) = true) :
    ∃ a b c d, ns = [a, b, c, d] ∧ p a.kind = true ∧ q b.kind = true ∧ r c.kind = true ∧
      s d.kind = true := by
  match ns, fits with
  | [a, b, c, d], fits => exact ⟨a, b, c, d, rfl, by simpa [fillPlaces] using fits⟩
  | [], fits | [_], fits | [_, _], fits | [_, _, _], fits | _ :: _ :: _ :: _ :: _ :: _, fits =>
    simp [fillPlaces] at fits

theorem valueType?_of_isValueType {kind : Kind} (h : kind.isValueType = true) :
    ∃ ty, kind.valueType? = some ty := by
  cases kind <;> first | exact ⟨_, rfl⟩ | cases h

theorem type?_of_isType {kind : Kind} (h : kind.isType = true) :
    ∃ ty, kind.type? = some ty := by
  cases kind <;> first | exact ⟨_, rfl⟩ | cases h

/-- Parameters that are laid out have types and names. -/
theorem parameters_of_laidOut {ps : List Node} (isParameter : ∀ p ∈ ps, p.kind = .formalParameter)
    (laidOut : ∀ p ∈ ps, p.LaidOut) :
    ∃ tys params, parameterTypes ps = .ok tys ∧ ps.mapM Node.binding? = some params := by
  induction ps with
  | nil => exact ⟨[], [], rfl, rfl⟩
  | cons p rest ih =>
    rw [List.forall_mem_cons] at isParameter laidOut
    obtain ⟨tys, params, htys, hparams⟩ := ih isParameter.2 laidOut.2
    have places := laidOut.1
    rw [Node.LaidOut, isParameter.1] at places
    obtain ⟨t, id, hch, isValueType, isId⟩ := fillPlaces_two places
    obtain ⟨ty, hty⟩ := valueType?_of_isValueType isValueType
    have hbinding : p.binding? = some (id.attr, ty) :=
      Node.binding?_eq_some.mpr ⟨t, id, hch, by simpa using isId, hty, rfl⟩
    exact ⟨ty :: tys, (id.attr, ty) :: params,
      parameterTypes_cons.mpr ⟨t, id, ty, tys, isParameter.1, hch, hty, htys, rfl⟩,
      bindings_cons.mpr ⟨_, params, hbinding, hparams, rfl⟩⟩

/-- The entry of a declaration in the words of the tree. -/
structure EntryOf (d : Node) (e : GlobalEntry) : Prop where
  entry : entryOf? d = some e
  var : e.var? = if d.kind = .variableDeclaration then d.binding? else none
  func : e.func? = if d.kind = .functionDeclaration then functionOf? d else none

/-- A declaration whose head is laid out, without a note on its name, enters what it says. -/
theorem exists_entry {d : Node} (head : HeadLaidOut d)
    (plain : ∀ id ∈ d.children[1]?, id.note = none) : ∃ e, EntryOf d e := by
  rcases d with ⟨kind, attr, loc, note, children⟩
  obtain ⟨isDeclaration, laidOut, parameters⟩ := head
  rw [Node.LaidOut] at laidOut
  cases kind <;> try cases isDeclaration
  case variableDeclaration =>
    obtain ⟨t, id, rfl, isValueType, isId⟩ := fillPlaces_two laidOut
    obtain ⟨ty, hty⟩ := valueType?_of_isValueType isValueType
    obtain ⟨idKind, name, nameLoc, nameNote, nameCh⟩ := id
    obtain rfl : nameNote = none := plain _ rfl
    obtain rfl : idKind = .id := by simpa using isId
    have hname : typedName ⟨.variableDeclaration, attr, loc, note,
        [t, ⟨.id, name, nameLoc, none, nameCh⟩]⟩ = .ok (ty, ⟨.id, name, nameLoc, none, nameCh⟩) :=
      typedName_ok_iff.mpr ⟨t, rfl, hty, rfl⟩
    have hbinding : Node.binding? ⟨.variableDeclaration, attr, loc, note,
        [t, ⟨.id, name, nameLoc, none, nameCh⟩]⟩ = some (name, ty) :=
      Node.binding?_eq_some.mpr ⟨t, ⟨.id, name, nameLoc, none, nameCh⟩, rfl, rfl, hty, rfl⟩
    exact ⟨.global name ty, by simp only [entryOf?, hname], hbinding.symm, rfl⟩
  case functionDeclaration =>
    obtain ⟨resultNode, id, params, body, rfl, isType, isId, isList, -⟩ :=
      fillPlaces_four laidOut
    obtain ⟨result, hresult⟩ := type?_of_isType isType
    obtain ⟨idKind, name, nameLoc, nameNote, nameCh⟩ := id
    obtain rfl : nameNote = none := plain _ rfl
    obtain rfl : idKind = .id := by simpa using isId
    have hlist : params.kind = .formalParameterList := by simpa using isList
    obtain ⟨fits, below⟩ := parameters rfl params rfl
    have isParameter : ∀ p ∈ params.children, p.kind = .formalParameter := by
      rw [Node.LaidOut, hlist] at fits
      simpa [Kind.layout, Layout.fits] using fits
    obtain ⟨tys, bound, htys, hbound⟩ := parameters_of_laidOut isParameter below
    have hhead : functionHead ⟨.functionDeclaration, attr, loc, note,
        [resultNode, ⟨.id, name, nameLoc, none, nameCh⟩, params, body]⟩ =
          .ok (⟨.id, name, nameLoc, none, nameCh⟩, ⟨tys, result⟩) :=
      functionHead_ok_iff.mpr ⟨_, _, _, rfl, hresult, rfl, hlist, htys⟩
    refine ⟨.function name ⟨tys, result⟩, by simp only [entryOf?, hhead], rfl, ?_⟩
    simp [GlobalEntry.func?, functionOf?, hresult, hbound, parameterTypes_of_bindings htys hbound]
  case entryPointDeclaration =>
    obtain ⟨resultNode, id, params, body, rfl, isVoid, isId, -⟩ := fillPlaces_four laidOut
    obtain ⟨idKind, name, nameLoc, nameNote, nameCh⟩ := id
    obtain rfl : nameNote = none := plain _ rfl
    obtain rfl : idKind = .id := by simpa using isId
    have hhead : entryPointHead ⟨.entryPointDeclaration, attr, loc, note,
        [resultNode, ⟨.id, name, nameLoc, none, nameCh⟩, params, body]⟩ =
          .ok ⟨.id, name, nameLoc, none, nameCh⟩ :=
      entryPointHead_ok_iff.mpr ⟨_, _, _, rfl, by simpa using isVoid, rfl⟩
    exact ⟨.entryPoint name, by simp only [entryOf?, hhead], rfl, rfl⟩

/-- What the declarations of a list enter, by kinds. -/
theorem entries_of_list {ds : List Node} (entries : ∀ d ∈ ds, ∃ e, EntryOf d e) :
    (ds.filterMap entryOf?).filterMap GlobalEntry.var? = declaredBy ds ∧
      (ds.filterMap entryOf?).filterMap GlobalEntry.func? = declaredFunctions ds := by
  rw [List.filterMap_filterMap, List.filterMap_filterMap, declaredBy, declaredFunctions,
    List.filterMap_filter, List.filterMap_filter]
  constructor
  · refine List.filterMap_congr fun d hd => ?_
    obtain ⟨e, he⟩ := entries d hd
    simpa [he.entry] using he.var
  · refine List.filterMap_congr fun d hd => ?_
    obtain ⟨e, he⟩ := entries d hd
    simpa [he.entry] using he.func

/-! ## Names that are taken -/

/-- The entry points of entries that fit are those of the scope they leave. -/
theorem mains_foldl {s : Scope} {es : List GlobalEntry} (fit : GlobalEntry.AllFit s es)
    (named : ∀ e ∈ es, e.name ≠ []) :
    (es.foldl GlobalEntry.into s).mains = s.mains ++ es.filterMap GlobalEntry.mainName? := by
  induction es generalizing s with
  | nil => simp
  | cons e rest ih =>
    obtain ⟨fits, fit⟩ := fit
    rw [List.forall_mem_cons] at named
    rw [List.foldl_cons, ih fit named.2]
    cases e with
    | entryPoint name =>
      have hname : name ≠ [] := named.1
      have hnone : s.mains = [] := if_pos fits
      rw [GlobalEntry.mains_entryPoint hname, hnone]
      rfl
    | function | global => rfl

/-- The names that entries bring. -/
theorem mem_names_iff {es : List GlobalEntry} {name : Bytes} :
    (name ∈ (es.filterMap GlobalEntry.var?).map Prod.fst ++
        (es.filterMap GlobalEntry.func?).map Prod.fst ∨
      name ∈ es.filterMap GlobalEntry.mainName?) ↔ ∃ e ∈ es, e.name = name := by
  constructor
  · simp only [List.mem_append, List.mem_map, List.mem_filterMap]
    rintro ((⟨v, ⟨e, he, hv⟩, rfl⟩ | ⟨v, ⟨e, he, hv⟩, rfl⟩) | ⟨e, he, hname⟩)
    · cases e <;> cases hv
      exact ⟨_, he, rfl⟩
    · cases e <;> cases hv
      exact ⟨_, he, rfl⟩
    · cases e <;> cases hname
      exact ⟨_, he, rfl⟩
  · rintro ⟨e, he, rfl⟩
    cases e with
    | entryPoint name => exact .inr (List.mem_filterMap.mpr ⟨_, he, rfl⟩)
    | function name sig =>
      refine .inl (List.mem_append_right _ (List.mem_map.mpr ⟨(name, sig), ?_, rfl⟩))
      exact List.mem_filterMap.mpr ⟨_, he, rfl⟩
    | global name ty =>
      refine .inl (List.mem_append_left _ (List.mem_map.mpr ⟨(name, ty), ?_, rfl⟩))
      exact List.mem_filterMap.mpr ⟨_, he, rfl⟩

/-- The names that are taken behind entries that fit are theirs. -/
theorem binds_foldl_iff {es : List GlobalEntry} (fit : GlobalEntry.AllFit .globals es)
    (named : ∀ e ∈ es, e.name ≠ []) (name : Bytes) :
    (es.foldl GlobalEntry.into .globals).binds name = false ↔ ¬∃ e ∈ es, e.name = name := by
  rw [Scope.binds_eq_false_iff, mains_foldl fit named, Scope.varNames, Scope.funcNames,
    GlobalEntry.vars_foldl, GlobalEntry.funcs_foldl, ← not_or, ← mem_names_iff]
  rfl

/-! ## Declarations that fit -/

theorem allFit_append {s : Scope} {es fs : List GlobalEntry} :
    GlobalEntry.AllFit s (es ++ fs) ↔
      GlobalEntry.AllFit s es ∧ GlobalEntry.AllFit (es.foldl GlobalEntry.into s) fs := by
  induction es generalizing s with
  | nil => simp [GlobalEntry.AllFit]
  | cons e rest ih => simp [GlobalEntry.AllFit, ih, and_assoc]

theorem entries_named {ds : List Node} (named : ∀ d ∈ ds, declaredName? d ≠ some []) :
    ∀ e ∈ ds.filterMap entryOf?, e.name ≠ [] := by
  intro e he hnil
  obtain ⟨d, hd, hentry⟩ := List.mem_filterMap.mp he
  exact named d hd (hnil ▸ (entryOf?_eq_some hentry).2)

section Fitting

variable {ds : List Node} (h : Fitting ds) (named : ∀ d ∈ ds, declaredName? d ≠ some [])
include h named

/-- The entry point is the one that is declared. -/
theorem mem_mains_iff {name : Bytes} :
    name ∈ (declaredScope ds).mains ↔
      ∃ d ∈ ds, d.kind = .entryPointDeclaration ∧ declaredName? d = some name := by
  have hmains : (declaredScope ds).mains = (ds.filterMap entryOf?).filterMap GlobalEntry.mainName? :=
    mains_foldl h.fit (entries_named named)
  rw [hmains]
  constructor
  · intro hmem
    obtain ⟨e, he, hname⟩ := List.mem_filterMap.mp hmem
    obtain ⟨d, hd, hentry⟩ := List.mem_filterMap.mp he
    cases e <;> cases hname
    exact ⟨d, hd, entryOf?_eq_some hentry⟩
  · rintro ⟨d, hd, hkind, hname⟩
    obtain ⟨e, he⟩ := Option.isSome_iff_exists.mp (h.entries d hd)
    obtain ⟨hkind', hname'⟩ := entryOf?_eq_some he
    refine List.mem_filterMap.mpr ⟨e, List.mem_filterMap.mpr ⟨d, hd, he⟩, ?_⟩
    cases e with
    | entryPoint => exact hname'.symm.trans hname
    | function | global => cases hkind.symm.trans hkind'

theorem entryPoint_eq_nil_iff :
    (declaredScope ds).entryPoint = [] ↔ ∀ d ∈ ds, d.kind ≠ .entryPointDeclaration := by
  have hmains : (declaredScope ds).entryPoint = [] ↔ (declaredScope ds).mains = [] := by
    unfold Scope.mains
    split <;> simp_all
  rw [hmains, List.eq_nil_iff_forall_not_mem]
  simp only [mem_mains_iff h named]
  constructor
  · intro none d hd hkind
    obtain ⟨e, he⟩ := Option.isSome_iff_exists.mp (h.entries d hd)
    exact none _ ⟨d, hd, hkind, (entryOf?_eq_some he).2⟩
  · rintro none name ⟨d, hd, hkind, -⟩
    exact none d hd hkind

theorem declaredName?_entryPoint {d : Node} (hd : d ∈ ds)
    (isMain : d.kind = .entryPointDeclaration) :
    declaredName? d = some (declaredScope ds).entryPoint := by
  obtain ⟨e, he⟩ := Option.isSome_iff_exists.mp (h.entries d hd)
  have hname := (entryOf?_eq_some he).2
  have hmem := (mem_mains_iff h named).mpr ⟨d, hd, isMain, hname⟩
  unfold Scope.mains at hmem
  split at hmem
  · cases hmem
  · rw [hname, List.mem_singleton.mp hmem]

/-- A declaration fits behind declarations that fit if it clashes with none of them. -/
theorem fits_iff_not_conflicts {d : Node} {e : GlobalEntry} (isEntry : entryOf? d = some e) :
    e.Fits (declaredScope ds) ↔ ¬Conflicts ds d := by
  obtain ⟨hkind, hname⟩ := entryOf?_eq_some isEntry
  -- a function or a variable
  have bound : d.kind ≠ .entryPointDeclaration →
      ((declaredScope ds).binds e.name = false ↔ ¬Conflicts ds d) := by
    intro other
    rw [declaredScope, binds_foldl_iff h.fit (entries_named named)]
    refine not_congr ⟨?_, ?_⟩
    · rintro ⟨f, hf, heq⟩
      obtain ⟨d', hd', hentry⟩ := List.mem_filterMap.mp hf
      refine ⟨d', hd', ?_⟩
      rw [Clashes, if_neg other, hname, (entryOf?_eq_some hentry).2, heq]
    · rintro ⟨d', hd', hclash⟩
      obtain ⟨f, hf⟩ := Option.isSome_iff_exists.mp (h.entries d' hd')
      rw [Clashes, if_neg other, hname, (entryOf?_eq_some hf).2] at hclash
      exact ⟨f, List.mem_filterMap.mpr ⟨d', hd', hf⟩, Option.some.inj hclash⟩
  cases e with
  | function name sig => exact bound (by rw [hkind]; simp [GlobalEntry.kind])
  | global name ty => exact bound (by rw [hkind]; simp [GlobalEntry.kind])
  | entryPoint name =>
    have isMain : d.kind = .entryPointDeclaration := hkind
    refine (entryPoint_eq_nil_iff h named).trans ?_
    simp [Conflicts, Clashes, isMain]

end Fitting

/-- Declarations fit together exactly if none of them clashes with one in front of it. -/
theorem fitting_iff_compatible {ds : List Node} (entries : ∀ d ∈ ds, ∃ e, EntryOf d e)
    (named : ∀ d ∈ ds, declaredName? d ≠ some []) : Fitting ds ↔ Compatible ds := by
  induction ds using List.reverseRecOn with
  | nil => exact ⟨fun _ => .nil, fun _ => ⟨by simp, trivial⟩⟩
  | append_singleton front d ih =>
    simp only [List.forall_mem_append, List.forall_mem_singleton] at entries named
    obtain ⟨e, he⟩ := entries.2
    have hfitting : Fitting (front ++ [d]) ↔ Fitting front ∧ e.Fits (declaredScope front) := by
      have hmap : (front ++ [d]).filterMap entryOf? = front.filterMap entryOf? ++ [e] := by
        simp [he.entry]
      constructor
      · rintro ⟨isSome, fit⟩
        rw [hmap, allFit_append] at fit
        exact ⟨⟨fun d hd => isSome d (List.mem_append_left _ hd), fit.1⟩, fit.2.1⟩
      · rintro ⟨⟨isSome, fit⟩, fits⟩
        refine ⟨?_, ?_⟩
        · simp only [List.forall_mem_append, List.forall_mem_singleton]
          exact ⟨isSome, by simp [he.entry]⟩
        · rw [hmap, allFit_append]
          exact ⟨fit, fits, trivial⟩
    rw [hfitting, compatible_concat, ← ih entries.1 named.1]
    exact and_congr_right fun h => fits_iff_not_conflicts h named.1 he.entry

/-! ## The declaration that is refused -/

theorem Context.setEntryPoint_refused {c : Context} {name : Bytes} {loc : Location}
    (second : c.scopes.globals.entryPoint ≠ []) :
    c.setEntryPoint .globals name loc = .error (.duplicateMain name loc) := by
  simp [Context.setEntryPoint, Scope.setEntryPoint, Scopes.get, second]

theorem Context.declareFunc_refused {c : Context} {name : Bytes} {sig : Signature}
    {loc : Location} (isGlobal : c.scopes.globals.variant = .global)
    (taken : c.scopes.globals.binds name = true) :
    c.declareFunc .globals name sig loc = .error (.user (.duplicateFunction name loc)) := by
  simp [Context.declareFunc, Scope.declareFunc, Scope.isGlobalStorage, Scopes.get, isGlobal, taken]

theorem Context.declareVariable_refused {c : Context} {name : Bytes} {ty : Ty} {loc : Location}
    (taken : c.scopes.globals.binds name = true) :
    c.declare .globals name ty loc = .error (.duplicateVariable name loc) := by
  simp [Context.declare, Scope.declare, Scopes.get, taken]

/-- A declaration that does not fit is reported by its name. -/
theorem collectDeclaration_refused {c : Context} {d : Node} {e : GlobalEntry}
    (isGlobal : c.scopes.globals.variant = .global) (isEntry : entryOf? d = some e)
    (refuses : ¬e.Fits c.scopes.globals) :
    ∃ id, d.children[1]? = some id ∧
      (collectDeclaration c d).1 = .error (.user (conflictOf d id)) := by
  unfold entryOf? at isEntry
  -- one goal for each kind of declaration, with the head that was read, and the others
  split at isEntry <;> rename_i hkind
  · split at isEntry
    · rename_i kind name nameLoc nameCh hhead
      cases isEntry
      obtain ⟨_, _, _, hch, -⟩ := entryPointHead_ok_iff.mp hhead
      refine ⟨⟨kind, name, nameLoc, none, nameCh⟩, by rw [hch]; rfl, ?_⟩
      simp only [collectDeclaration, hkind, hhead, Context.setEntryPoint_refused refuses, conflictOf]
    · cases isEntry
  · split at isEntry
    · rename_i kind name nameLoc nameCh sig hhead
      cases isEntry
      obtain ⟨_, _, _, hch, -⟩ := functionHead_ok_iff.mp hhead
      have taken := Bool.of_not_eq_false refuses
      refine ⟨⟨kind, name, nameLoc, none, nameCh⟩, by rw [hch]; rfl, ?_⟩
      simp only [collectDeclaration, hkind, hhead, Context.declareFunc_refused isGlobal taken,
        conflictOf]
    · cases isEntry
  · split at isEntry
    · rename_i ty kind name nameLoc nameCh hname
      cases isEntry
      obtain ⟨_, hch, -⟩ := typedName_ok_iff.mp hname
      have taken := Bool.of_not_eq_false refuses
      refine ⟨⟨kind, name, nameLoc, none, nameCh⟩, by rw [hch]; rfl, ?_⟩
      simp only [collectDeclaration, hkind, hname, Context.declareVariable_refused taken, conflictOf]
    · cases isEntry
  · cases isEntry

/-- The first refusal ends the collection. -/
theorem collectDeclarations_refused {c c' : Context} {before before' after : List Node} {d : Node}
    {f : Failure} (collected : collectDeclarations c before = (.ok (), before', c'))
    (refused : (collectDeclaration c' d).1 = .error f) :
    (collectDeclarations c (before ++ d :: after)).1 = .error f := by
  induction before generalizing c before' with
  | nil =>
    obtain ⟨-, rfl⟩ := collectDeclarations_nil.mp collected
    rcases hd : collectDeclaration c' d with ⟨o, d', c₁⟩
    rw [hd] at refused
    obtain rfl : o = .error f := refused
    rw [List.nil_append, collectDeclarations, hd]
  | cons e rest ih =>
    obtain ⟨e', c₁, rest', he, hrest, -⟩ := collectDeclarations_cons.mp collected
    rw [List.cons_append, collectDeclarations, he]
    exact ih hrest

/-! ## The whole list -/

/-- Entries add to variables and functions, and touch nothing else but the entry point. -/
theorem foldl_into (s : Scope) (es : List GlobalEntry) :
    es.foldl GlobalEntry.into s = { s with
      vars := s.vars ++ es.filterMap GlobalEntry.var?
      funcs := s.funcs ++ es.filterMap GlobalEntry.func?
      entryPoint := (es.foldl GlobalEntry.into s).entryPoint } := by
  rw [← GlobalEntry.vars_foldl, ← GlobalEntry.funcs_foldl]
  induction es generalizing s with
  | nil => rfl
  | cons e rest ih =>
    rw [List.foldl_cons]
    refine (ih _).trans ?_
    cases e <;> rfl

/-- The scope of the user's declarations, as the words of the tree give it. -/
theorem declaredScope_eq {ds : List Node} (entries : ∀ d ∈ ds, ∃ e, EntryOf d e) :
    declaredScope ds = { Scope.globals with
      vars := declaredBy ds
      funcs := declaredFunctions ds
      entryPoint := (declaredScope ds).entryPoint } := by
  obtain ⟨hvars, hfuncs⟩ := entries_of_list entries
  rw [← hvars, ← hfuncs]
  exact foldl_into .globals _

/-- Declarations that fit are collected, and an entry point has to be among them. -/
theorem collectGlobals_fitting {root : Node} (isGlobals : root.kind = .globalDeclarations)
    (h : Fitting root.children) :
    (collectGlobals .initial root).2.2 = declaredContext root.children ∧
      (collectGlobals .initial root).1 =
        if (declaredScope root.children).entryPoint = [] then .error (.user .noMain)
        else .ok () := by
  obtain ⟨ds', hds⟩ := collect_iff_fitting.mpr ⟨h, rfl⟩
  have hentry : (declaredContext root.children).scopes.globals.entryPoint.isEmpty = true ↔
      (declaredScope root.children).entryPoint = [] := List.isEmpty_iff
  simp only [collectGlobals, Node.expect_ok_iff.mpr isGlobals, hds, hentry]
  split <;> exact ⟨rfl, rfl⟩

/-- The first declaration that does not fit is reported. -/
theorem collectGlobals_refused {root : Node} {before after : List Node} {d : Node}
    {e : GlobalEntry} (isGlobals : root.kind = .globalDeclarations)
    (split : root.children = before ++ d :: after) (h : Fitting before)
    (isEntry : entryOf? d = some e) (refuses : ¬e.Fits (declaredScope before)) :
    ∃ id, d.children[1]? = some id ∧
      (collectGlobals .initial root).1 = .error (.user (conflictOf d id)) := by
  obtain ⟨before', hbefore⟩ := collect_iff_fitting.mpr ⟨h, rfl⟩
  obtain ⟨id, hid, hd⟩ := collectDeclaration_refused h.collected.globalVariant isEntry refuses
  have hall : (collectDeclarations .initial (before ++ d :: after)).1 = _ :=
    collectDeclarations_refused hbefore hd
  refine ⟨id, hid, ?_⟩
  rcases hds : collectDeclarations .initial root.children with ⟨o, ds', c'⟩
  rw [← split, hds] at hall
  obtain rfl : o = _ := hall
  simp only [collectGlobals, Node.expect_ok_iff.mpr isGlobals, hds]

/-- How the collection of global declarations ends, from the start of a run, whatever is in the
bodies of the functions.

It succeeds exactly if there is one entry point, the names of functions and variables differ,
and none behind the entry point has its name.  Then the scope of the user's declarations holds
the variables and the functions in their order and the name of the entry point.  Any other
list ends in what is reported of the first declaration that clashes with one in front of it,
or in the report that there is no entry point. -/
theorem collectGlobals_exact {root : Node} (layout : HeadsLaidOut root)
    (plain : ∀ d ∈ root.children, ∀ id ∈ d.children[1]?, id.note = none)
    (named : ∀ d ∈ root.children, declaredName? d ≠ some []) :
    ((collectGlobals .initial root).1 = .ok () ↔ DeclaredOnce root.children) ∧
    (DeclaredOnce root.children → ∃ name,
      (collectGlobals .initial root).2.2 = Context.initial.withGlobals { Scope.globals with
        vars := declaredBy root.children
        funcs := declaredFunctions root.children
        entryPoint := name } ∧
      ∀ d ∈ root.children, d.kind = .entryPointDeclaration → declaredName? d = some name) ∧
    (¬DeclaredOnce root.children →
      (∃ before d after id, root.children = before ++ d :: after ∧ Compatible before ∧
        Conflicts before d ∧ d.children[1]? = some id ∧
        (collectGlobals .initial root).1 = .error (.user (conflictOf d id))) ∨
      Compatible root.children ∧ (∀ d ∈ root.children, d.kind ≠ .entryPointDeclaration) ∧
        (collectGlobals .initial root).1 = .error (.user .noMain)) := by
  have entries : ∀ d ∈ root.children, ∃ e, EntryOf d e := fun d hd =>
    exists_entry (layout.heads d hd) (plain d hd)
  have isNamed : ∀ d ∈ root.children, (declaredName? d).isSome := by
    intro d hd
    obtain ⟨e, he⟩ := entries d hd
    simp [(entryOf?_eq_some he.entry).2]
  have honce := declaredOnce_iff isNamed
  by_cases compatible : Compatible root.children
  · have h : Fitting root.children := (fitting_iff_compatible entries named).mpr compatible
    obtain ⟨hcontext, houtcome⟩ := collectGlobals_fitting layout.globals h
    have hnone := entryPoint_eq_nil_iff h named
    by_cases noMain : (declaredScope root.children).entryPoint = []
    · rw [if_pos noMain] at houtcome
      have notOnce : ¬DeclaredOnce root.children := by
        rintro once
        obtain ⟨-, d, hd, isMain⟩ := honce.mp once
        exact hnone.mp noMain d hd isMain
      exact ⟨by simp [houtcome, notOnce], fun once => absurd once notOnce,
        fun _ => .inr ⟨compatible, hnone.mp noMain, houtcome⟩⟩
    · rw [if_neg noMain] at houtcome
      have once : DeclaredOnce root.children := by
        refine honce.mpr ⟨compatible, ?_⟩
        by_contra none
        exact noMain (hnone.mpr fun d hd isMain => none ⟨d, hd, isMain⟩)
      refine ⟨by simp [houtcome, once], fun _ => ⟨_, ?_, fun d hd isMain =>
        declaredName?_entryPoint h named hd isMain⟩, fun notOnce => absurd once notOnce⟩
      rw [hcontext, declaredContext, ← declaredScope_eq entries]
  · obtain ⟨before, d, after, hsplit, hbefore, hconflict⟩ := exists_conflict compatible
    rw [hsplit, List.forall_mem_append, List.forall_mem_cons] at entries named
    obtain ⟨e, he⟩ := entries.2.1
    have h : Fitting before := (fitting_iff_compatible entries.1 named.1).mpr hbefore
    have refuses : ¬e.Fits (declaredScope before) := fun fits =>
      (fits_iff_not_conflicts h named.1 he.entry).mp fits hconflict
    obtain ⟨id, hid, houtcome⟩ :=
      collectGlobals_refused layout.globals hsplit h he.entry refuses
    have notOnce : ¬DeclaredOnce root.children := fun once => compatible (honce.mp once).1
    exact ⟨by simp [houtcome, notOnce], fun once => absurd once notOnce,
      fun _ => .inl ⟨before, d, after, id, hsplit, hbefore, hconflict, hid, houtcome⟩⟩

/-- `mutualProgram` with its first function once more at the end. -/
def repeatedFunction : Node :=
  { mutualProgram with children := mutualProgram.children ++ mutualProgram.children.take 1 }

/-- The program declares every name once and is collected, and with a function repeated at the
end it is not, and the last declaration is the one that is reported. -/
theorem collectGlobals_exact_repeated :
    DeclaredOnce mutualProgram.children ∧ (collectGlobals .initial mutualProgram).1 = .ok () ∧
    HeadsLaidOut repeatedFunction ∧
    (∀ d ∈ repeatedFunction.children, ∀ id ∈ d.children[1]?, id.note = none) ∧
    (∀ d ∈ repeatedFunction.children, declaredName? d ≠ some []) ∧
    ∃ before d after id, repeatedFunction.children = before ++ d :: after ∧ Compatible before ∧
      Conflicts before d ∧ d.children[1]? = some id ∧
      (collectGlobals .initial repeatedFunction).1 = .error (.user (conflictOf d id)) := by
  have once : DeclaredOnce mutualProgram.children := ⟨by decide, by decide, by decide⟩
  have notCompatible : ¬Compatible repeatedFunction.children := by decide
  have layout : HeadsLaidOut repeatedFunction := headsLaidOut_of_isProgram ⟨rfl, by decide⟩
  have plain : ∀ d ∈ repeatedFunction.children, ∀ id ∈ d.children[1]?, id.note = none := by decide
  have named : ∀ d ∈ repeatedFunction.children, declaredName? d ≠ some [] := by decide
  have isNamed : ∀ d ∈ repeatedFunction.children, (declaredName? d).isSome := by decide
  have layoutOnce : HeadsLaidOut mutualProgram := headsLaidOut_of_isProgram ⟨rfl, by decide⟩
  obtain ⟨collected, -⟩ := collectGlobals_exact layoutOnce (by decide) (by decide)
  obtain ⟨-, -, refused⟩ := collectGlobals_exact layout plain named
  refine ⟨once, collected.mpr once, layout, plain, named, ?_⟩
  refine (refused fun again => ?_).resolve_right fun h => notCompatible h.1
  exact notCompatible ((declaredOnce_iff isNamed).mp again).1

end TreeWat.Check
