import TreeWat.Proofs.Check.Alike
import TreeWat.Proofs.Check.Entries
import TreeWat.Proofs.Lower.Program
set_option autoImplicit false

/-!
# Check: acceptance does not depend on the order of declarations

Three things do depend on the order: which failure is met first, the tags that functions
draw from one counter, and the scopes that are noted.  `checkProgram_ok_iff` says when a
program is accepted in terms that have no order: the declarations are well formed and fit
together, and every function is accepted, and returns, among the global names.  Since a
function only asks what the names stand for (`checkFunction_alike`), it does not matter
which functions were checked before it.
-/

namespace TreeWat

/-- The order of bindings does not matter if the names are distinct. -/
theorem lookup_perm {α : Type} {vs ws : List (Bytes × α)} (perm : vs.Perm ws)
    (distinct : (vs.map Prod.fst).Nodup) (name : Bytes) : vs.lookup name = ws.lookup name := by
  induction perm with
  | nil => rfl
  | cons v _ ih =>
    rw [List.map_cons, List.nodup_cons] at distinct
    rw [List.lookup_cons, List.lookup_cons, ih distinct.2]
  | swap v w rest =>
    obtain ⟨first, a⟩ := v
    obtain ⟨second, b⟩ := w
    simp only [List.lookup_cons]
    cases hfirst : name == first with
    | false => rfl
    | true =>
      cases hsecond : name == second with
      | false => rfl
      | true =>
        obtain rfl := beq_iff_eq.mp hfirst
        obtain rfl := beq_iff_eq.mp hsecond
        simp at distinct
  | trans h _ ih₁ ih₂ =>
    rw [ih₁ distinct, ih₂ ((h.map Prod.fst).nodup_iff.mp distinct)]

namespace Check

variable {c c' c₁ c₂ : Context} {scopes scopes₁ scopes₂ : Scopes}

/-! ## The bodies -/

/-- The body of a declaration, if it has one, is accepted. -/
def Passes (c : Context) (d : Node) : Prop :=
  d.kind = .functionDeclaration ∨ d.kind = .entryPointDeclaration → (checkFunction c d).1 = .ok ()

theorem Passes.of_alike {d : Node} (h₁ : Between c₁) (h₂ : Between c₂)
    (same : c₁.names.Alike c₂.names) (passes : Passes c₁ d) : Passes c₂ d := by
  intro isFunction
  obtain ⟨d₂, c₂', accepted⟩ := checkFunction_alike h₁ h₂ same (Prod.ext (passes isFunction) rfl)
  rw [accepted]

/-- Functions that were checked before do not matter. -/
theorem passes_iff_of_frame {k : Nat} {d : Node} (h : Between c) (hframe : Frame k c c') :
    Passes c' d ↔ Passes c d := by
  have hnames : c'.names = c.names := by
    unfold Context.names
    rw [hframe.globals]
  constructor
  · exact Passes.of_alike (h.of_frame hframe) h (hnames ▸ .refl _)
  · exact Passes.of_alike h (h.of_frame hframe) (hnames ▸ .refl _)

/-- The second round succeeds exactly if every body is accepted by itself. -/
theorem checkBodiesOf_ok_iff {ds : List Node} (h : Between c) :
    (checkBodiesOf c ds).1 = .ok () ↔ ∀ d ∈ ds, Passes c d := by
  induction ds generalizing c with
  | nil => simp [checkBodiesOf]
  | cons d rest ih =>
    rw [List.forall_mem_cons, checkBodiesOf]
    by_cases isFunction : d.kind = .functionDeclaration ∨ d.kind = .entryPointDeclaration
    · rw [if_pos isFunction]
      rcases hd : checkFunction c d with ⟨_ | ⟨⟩, d', c₁⟩
      · simp [Passes, isFunction, hd]
      · -- this function only adds scopes behind, so the others are checked as before it
        have hframe := checkFunction_frame h hd
        have hfirst : Passes c d := fun _ => by rw [hd]
        show (checkBodiesOf c₁ rest).1 = .ok () ↔ _
        rw [ih (h.of_frame hframe)]
        simp only [hfirst, true_and, passes_iff_of_frame h hframe]
    · have hfirst : Passes c d := fun h => absurd h isFunction
      rw [if_neg isFunction]
      show (checkBodiesOf c rest).1 = .ok () ↔ _
      rw [ih h]
      simp only [hfirst, true_and]

/-! ## Notes do not matter -/

/-- The third round asks for the spelling of a name and for the exits of a body. -/
theorem checkReturns_noted {kind : Kind} {attr : Bytes} {loc : Location} {note : Option Annotation}
    {resultNode name name' params params' body body' : Node} (sameName : name'.attr = name.attr)
    (sameExit : exitOf scopes body' = exitOf scopes body) :
    checkReturns scopes ⟨kind, attr, loc, note, [resultNode, name', params', body']⟩ =
      checkReturns scopes ⟨kind, attr, loc, note, [resultNode, name, params, body]⟩ := by
  simp only [checkReturns, Node.child, List.getElem?_cons_zero, List.getElem?_cons_succ, bind,
    Except.bind, Outcome.ofShape, sameName, sameExit]

theorem checkReturns_of_checkFunction {fn fn' : Node}
    (accepted : checkFunction c fn = (.ok (), fn', c')) :
    checkReturns scopes fn' = checkReturns scopes fn := by
  cases checkFunction_ok_iff.mp accepted with
  | intro _ _ _ acceptedBody =>
    refine checkReturns_noted rfl ?_
    rw [exitOf, exitOf]
    exact exitOfAll_of_checkStatements acceptedBody

/-- The third round reads no notes of the second. -/
theorem forall_checked_iff {ds ds' : List Node}
    (accepted : checkBodiesOf c ds = (.ok (), ds', c')) :
    (∀ d ∈ ds', checkReturns scopes d = .ok ()) ↔ ∀ d ∈ ds, checkReturns scopes d = .ok () := by
  induction ds generalizing c ds' with
  | nil =>
    rw [checkBodiesOf] at accepted
    cases accepted
    rfl
  | cons d rest ih =>
    by_cases isFunction : d.kind = .functionDeclaration ∨ d.kind = .entryPointDeclaration
    · obtain ⟨d', c₁, rest', hd, hrest, rfl⟩ := Lower.checkBodiesOf_function isFunction accepted
      rw [List.forall_mem_cons, List.forall_mem_cons, checkReturns_of_checkFunction hd, ih hrest]
    · obtain ⟨rest', hrest, rfl⟩ := Lower.checkBodiesOf_other isFunction accepted
      rw [List.forall_mem_cons, List.forall_mem_cons, ih hrest]

/-- Checking a function does not look at its name. -/
theorem checkFunction_name {kind : Kind} {attr : Bytes} {loc : Location} {note : Option Annotation}
    {resultNode name name' params body : Node} :
    (checkFunction c ⟨kind, attr, loc, note, [resultNode, name, params, body]⟩).1 =
      (checkFunction c ⟨kind, attr, loc, note, [resultNode, name', params, body]⟩).1 := by
  simp only [checkFunction]
  split
  · rfl
  · split
    · rfl
    · split
      · rfl
      · split <;> rfl

theorem DeclCollected.passes_iff {d d' : Node} (collected : DeclCollected c d d' c') :
    Passes c₁ d' ↔ Passes c₁ d := by
  cases collected with
  | entryPoint | function => rw [Passes, Passes, checkFunction_name]
  | global => simp [Passes]

theorem DeclCollected.checkReturns_eq {d d' : Node} (collected : DeclCollected c d d' c') :
    checkReturns scopes d' = checkReturns scopes d := by
  cases collected with
  | entryPoint | function => exact checkReturns_noted rfl rfl
  | global => simp [checkReturns]

/-- The second and the third round read no notes of the first. -/
theorem forall_collected_iff {ds ds' : List Node}
    (collected : collectDeclarations c ds = (.ok (), ds', c')) :
    (∀ d ∈ ds', Passes c₁ d ∧ checkReturns scopes d = .ok ()) ↔
      ∀ d ∈ ds, Passes c₁ d ∧ checkReturns scopes d = .ok () := by
  induction ds generalizing c ds' with
  | nil =>
    obtain ⟨rfl, -⟩ := collectDeclarations_nil.mp collected
    rfl
  | cons d rest ih =>
    obtain ⟨d', c₂, rest', hd, hrest, rfl⟩ := collectDeclarations_cons.mp collected
    have noted := DeclCollected.of_collectDeclaration hd
    rw [List.forall_mem_cons, List.forall_mem_cons, ih hrest, noted.passes_iff,
      noted.checkReturns_eq]

/-! ## When a program is accepted -/

/-- The scope of the user's declarations, as declarations that fit leave it. -/
def declaredScope (ds : List Node) : Scope :=
  (ds.filterMap entryOf?).foldl GlobalEntry.into .globals

/-- The context in which the bodies of these declarations are checked. -/
def declaredContext (ds : List Node) : Context :=
  Context.initial.withGlobals (declaredScope ds)

/-- Global declarations that fit together. -/
structure Fitting (ds : List Node) : Prop where
  entries : ∀ d ∈ ds, (entryOf? d).isSome
  fit : GlobalEntry.AllFit .globals (ds.filterMap entryOf?)

/-- Global declarations that are accepted. -/
structure Acceptable (ds : List Node) : Prop extends Fitting ds where
  entryPoint : (declaredScope ds).entryPoint ≠ []
  bodies : ∀ d ∈ ds, Passes (declaredContext ds) d ∧
    checkReturns (declaredContext ds).scopes d = .ok ()

/-- The first round from the start of a run. -/
theorem collect_iff_fitting {ds : List Node} :
    (∃ ds', collectDeclarations .initial ds = (.ok (), ds', c)) ↔
      Fitting ds ∧ c = declaredContext ds := by
  rw [collectDeclarations_ok_iff rfl]
  constructor
  · rintro ⟨entries, fit, rfl⟩
    exact ⟨⟨entries, fit⟩, rfl⟩
  · rintro ⟨h, rfl⟩
    exact ⟨h.entries, h.fit, rfl⟩

theorem Fitting.collected {ds : List Node} (h : Fitting ds) : Collected (declaredContext ds) := by
  obtain ⟨ds', hds⟩ := collect_iff_fitting.mpr ⟨h, rfl⟩
  exact Collected.initial.of_collectDeclarations hds

theorem halts_congr (sameBuiltins : scopes₁.builtins = scopes₂.builtins)
    (same : ∀ name, scopes₁.globals.func? name = scopes₂.globals.func? name) :
    halts scopes₁ = halts scopes₂ := by
  funext name
  unfold halts
  rw [sameBuiltins, same]

/-- The third round asks the program-wide scopes only. -/
theorem checkReturns_of_frame {k : Nat} (hframe : Frame k c c') (d : Node) :
    checkReturns c'.scopes d = checkReturns c.scopes d :=
  checkReturns_congr (halts_congr hframe.builtins fun _ => by rw [hframe.globals]) d

theorem acceptable_of_checkProgram {root : Node} {checked : CheckedProgram}
    (accepted : checkProgram root = .ok checked) :
    root.kind = .globalDeclarations ∧ Acceptable root.children ∧
      checked.scopes.globals = declaredScope root.children := by
  obtain ⟨root', c, c', ds, hcollect, hbodies, hreturns, rfl⟩ := Lower.checkProgram_ok accepted
  obtain ⟨decls, hkind, hdecls, hmain, rfl⟩ := collectGlobals_ok hcollect
  obtain ⟨hfitting, rfl⟩ := collect_iff_fitting.mp ⟨decls, hdecls⟩
  have hbetween := hfitting.collected.toBetween
  have hframe := Lower.checkBodiesOf_frame hbetween hbodies
  have hpass := (checkBodiesOf_ok_iff hbetween).mp (congrArg Prod.fst hbodies)
  have hreturns' := (forall_checked_iff hbodies).mp hreturns
  refine ⟨hkind, ⟨hfitting, hmain, ?_⟩, hframe.globals⟩
  exact (forall_collected_iff hdecls).mp fun d hd =>
    ⟨hpass d hd, (checkReturns_of_frame hframe d).symm.trans (hreturns' d hd)⟩

theorem checkProgram_of_acceptable {root : Node} (hkind : root.kind = .globalDeclarations)
    (h : Acceptable root.children) : ∃ checked, checkProgram root = .ok checked := by
  obtain ⟨decls, hdecls⟩ := collect_iff_fitting.mpr ⟨h.toFitting, rfl⟩
  have hbetween := h.collected.toBetween
  have hcollect : collectGlobals .initial root =
      (.ok (), { root with children := decls }, declaredContext root.children) := by
    have hmain : (declaredContext root.children).scopes.globals.entryPoint.isEmpty = false :=
      List.isEmpty_eq_false_iff.mpr h.entryPoint
    simp only [collectGlobals, Node.expect_ok_iff.mpr hkind, hdecls, hmain, Bool.false_eq_true,
      if_false]
  have hboth := (forall_collected_iff hdecls).mpr h.bodies
  have hpass := (checkBodiesOf_ok_iff hbetween).mpr fun d hd => (hboth d hd).1
  rcases hbodies : checkBodiesOf (declaredContext root.children) decls with ⟨o, ds, c'⟩
  obtain rfl : o = .ok () := by simpa [hbodies] using hpass
  have hframe := Lower.checkBodiesOf_frame hbetween hbodies
  have hreturns : checkAllReturns c'.scopes { root with children := ds } = .ok () :=
    Lower.forM_ok_iff.mpr ((forall_checked_iff hbodies).mpr fun d hd =>
      (checkReturns_of_frame hframe d).trans (hboth d hd).2)
  refine ⟨⟨{ root with children := ds }, c'.scopes⟩, ?_⟩
  simp only [checkProgram, checkProgramIn, hcollect, checkBodies, hbodies, hreturns]

/-- Acceptance in terms that have no order. -/
theorem checkProgram_ok_iff {root : Node} :
    (∃ checked, checkProgram root = .ok checked) ↔
      root.kind = .globalDeclarations ∧ Acceptable root.children := by
  constructor
  · rintro ⟨checked, accepted⟩
    obtain ⟨hkind, h, -⟩ := acceptable_of_checkProgram accepted
    exact ⟨hkind, h⟩
  · rintro ⟨hkind, h⟩
    exact checkProgram_of_acceptable hkind h

/-! ## Another order -/

/-- Every entry point has a name, and not that of a function or of a variable. -/
def EntryPointsApart (ds : List Node) : Prop :=
  ∀ d ∈ ds, d.kind = .entryPointDeclaration → ∀ name ∈ declaredName? d,
    name ≠ [] ∧ ∀ e ∈ ds, e.kind = .functionDeclaration ∨ e.kind = .variableDeclaration →
      name ∉ declaredName? e

instance (ds : List Node) : Decidable (EntryPointsApart ds) :=
  inferInstanceAs (Decidable (∀ d ∈ ds, d.kind = .entryPointDeclaration → ∀ name ∈ declaredName? d,
    name ≠ [] ∧ ∀ e ∈ ds, e.kind = .functionDeclaration ∨ e.kind = .variableDeclaration →
      name ∉ declaredName? e))

theorem EntryPointsApart.perm {ds es : List Node} (apart : EntryPointsApart ds)
    (perm : ds.Perm es) : EntryPointsApart es := by
  intro d hd hkind name hname
  obtain ⟨hne, hothers⟩ := apart d (perm.mem_iff.mpr hd) hkind name hname
  exact ⟨hne, fun e he => hothers e (perm.mem_iff.mpr he)⟩

/-- The names of entry points are apart from the others among the entries too. -/
theorem EntryPointsApart.entries {ds : List Node} (apart : EntryPointsApart ds) :
    ∀ name ∈ Scope.globals.mains ++ (ds.filterMap entryOf?).filterMap GlobalEntry.mainName?,
      name ≠ [] ∧ name ∉ (ds.filterMap entryOf?).filterMap GlobalEntry.boundName? := by
  intro name hmem
  obtain ⟨main, hmain, hname⟩ := List.mem_filterMap.mp (hmem : name ∈ _)
  obtain ⟨d, hd, hentry⟩ := List.mem_filterMap.mp hmain
  cases main with
  | function | global => cases hname
  | entryPoint =>
    cases hname
    obtain ⟨hkind, hdeclared⟩ := entryOf?_eq_some hentry
    obtain ⟨hne, hothers⟩ := apart d hd hkind name hdeclared
    refine ⟨hne, fun hmem => ?_⟩
    obtain ⟨other, hother, hname⟩ := List.mem_filterMap.mp hmem
    obtain ⟨e, he, hentry'⟩ := List.mem_filterMap.mp hother
    obtain ⟨hkind', hdeclared'⟩ := entryOf?_eq_some hentry'
    cases other with
    | entryPoint => cases hname
    | function =>
      cases hname
      exact hothers e he (.inl hkind') hdeclared'
    | global =>
      cases hname
      exact hothers e he (.inr hkind') hdeclared'

end Check

/-- Two scopes of the user's declarations hold the same variables with their types, the same
functions with their signatures, and the same entry point. -/
structure Scope.Agrees (s t : Scope) : Prop where
  vars : ∀ name, s.var? name = t.var? name
  funcs : ∀ name, s.func? name = t.func? name
  entryPoint : s.entryPoint = t.entryPoint

/-- Entries that fit give the same scope in every order. -/
theorem GlobalEntry.agrees_of_perm {es fs : List GlobalEntry} (perm : es.Perm fs)
    (varNames : ((es.filterMap var?).map Prod.fst).Nodup)
    (funcNames : ((es.filterMap func?).map Prod.fst).Nodup)
    (mains : (es.filterMap mainName?).length ≤ 1) :
    (es.foldl into .globals).Agrees (fs.foldl into .globals) where
  vars name := by
    unfold Scope.var?
    rw [vars_foldl, vars_foldl]
    exact lookup_perm (perm.filterMap var?) varNames name
  funcs name := by
    unfold Scope.func?
    rw [funcs_foldl, funcs_foldl]
    exact lookup_perm (perm.filterMap func?) funcNames name
  entryPoint := by
    rw [entryPoint_foldl, entryPoint_foldl]
    have hperm := perm.filterMap mainName?
    match hmains : es.filterMap mainName?, mains with
    | [], _ =>
      rw [hmains] at hperm
      rw [hperm.nil_eq]
    | [name], _ =>
      rw [hmains] at hperm
      rw [List.perm_singleton.mp hperm.symm]

namespace Check

theorem Fitting.distinct {ds : List Node} (h : Fitting ds) (apart : EntryPointsApart ds) :
    GlobalEntry.Distinct .globals (ds.filterMap entryOf?) :=
  (GlobalEntry.allFit_iff apart.entries).mp h.fit

theorem Fitting.perm {ds es : List Node} (h : Fitting ds) (apart : EntryPointsApart ds)
    (perm : ds.Perm es) : Fitting es where
  entries d hd := h.entries d (perm.mem_iff.mpr hd)
  fit := by
    have hperm := perm.filterMap entryOf?
    have hdistinct := h.distinct apart
    refine (GlobalEntry.allFit_iff (apart.perm perm).entries).mpr ⟨fun name _ => ?_, ?_, ?_⟩
    · simp [Scope.varNames, Scope.funcNames, Scope.globals, Scope.empty]
    · exact (hperm.filterMap GlobalEntry.boundName?).nodup_iff.mp hdistinct.names
    · have hmains := (hperm.filterMap GlobalEntry.mainName?).append_left Scope.globals.mains
      exact hmains.length_eq ▸ hdistinct.mains

theorem Fitting.agrees {ds es : List Node} (h : Fitting ds) (apart : EntryPointsApart ds)
    (perm : ds.Perm es) : (declaredScope ds).Agrees (declaredScope es) := by
  have hvars : ((declaredScope ds).vars.map Prod.fst).Nodup := h.collected.varNames
  have hfuncs : ((declaredScope ds).funcs.map Prod.fst).Nodup := h.collected.funcNames
  rw [declaredScope, GlobalEntry.vars_foldl] at hvars
  rw [declaredScope, GlobalEntry.funcs_foldl] at hfuncs
  exact GlobalEntry.agrees_of_perm (perm.filterMap entryOf?) hvars hfuncs (h.distinct apart).mains

/-- Declarations that are accepted are accepted in every order. -/
theorem Acceptable.perm {ds es : List Node} (h : Acceptable ds) (apart : EntryPointsApart ds)
    (perm : ds.Perm es) : Acceptable es := by
  have hfitting := h.toFitting.perm apart perm
  have hagrees := h.agrees apart perm
  have alike : (declaredContext ds).names.Alike (declaredContext es).names :=
    ⟨rfl, hagrees.vars, hagrees.funcs⟩
  refine ⟨hfitting, hagrees.entryPoint ▸ h.entryPoint, fun d hd => ?_⟩
  obtain ⟨hpass, hreturns⟩ := h.bodies d (perm.mem_iff.mpr hd)
  refine ⟨hpass.of_alike h.collected.toBetween hfitting.collected.toBetween alike, ?_⟩
  rw [← hreturns]
  refine (checkReturns_congr (halts_congr ?_ ?_) d).symm
  · rfl
  · exact hagrees.funcs

/-- A program is accepted exactly if it is accepted with its declarations in another order,
and then the names stand for the same. -/
theorem checkProgram_ignores_order {root : Node} {ds : List Node} (perm : root.children.Perm ds)
    (apart : EntryPointsApart root.children) :
    ((∃ checked, checkProgram root = .ok checked) ↔
      ∃ checked, checkProgram { root with children := ds } = .ok checked) ∧
    ∀ p q, checkProgram root = .ok p → checkProgram { root with children := ds } = .ok q →
      p.scopes.globals.Agrees q.scopes.globals := by
  constructor
  · rw [checkProgram_ok_iff, checkProgram_ok_iff]
    refine and_congr Iff.rfl ⟨fun h => ?_, fun h => ?_⟩
    · exact h.perm apart perm
    · exact h.perm (apart.perm perm) perm.symm
  · intro p q hp hq
    obtain ⟨-, h, hglobals⟩ := acceptable_of_checkProgram hp
    obtain ⟨-, -, hglobals'⟩ := acceptable_of_checkProgram hq
    rw [hglobals, hglobals']
    exact h.agrees apart perm

/-- Two functions that call each other, a function in the place of a built-in one, and a
variable that is declared after its use. -/
def mutualProgram : Node :=
  let id (name : String) : Node := .leaf .id (utf8 name) .nowhere
  let num (text : String) : Node := .leaf .num (utf8 text) .nowhere
  let node (kind : Kind) (children : List Node) : Node := .branch kind .nowhere children
  let call (name : String) (args : List Node) : Node :=
    node .functionInvocation [id name, node .argumentList args]
  let parity (name other : String) (atZero : Kind) : Node :=
    node .functionDeclaration [node .boolean [], id name,
      node .formalParameterList [node .formalParameter [node .int [], id "n"]],
      node .block [node .ifElse [node (.binary .eq) [id "n", num "0"],
        node .return [node atZero []],
        node .return [call other [node (.binary .sub) [id "n", num "1"]]]]]]
  node .globalDeclarations [
    parity "even" "odd" .trueLiteral,
    node .entryPointDeclaration [node .void [], id "main", node .formalParameterList [],
      node .block [call "printi" [call "even" [id "limit"]]]],
    node .functionDeclaration [node .void [], id "printi",
      node .formalParameterList [node .formalParameter [node .boolean [], id "answer"]],
      node .block [call "printb" [id "answer"]]],
    parity "odd" "even" .falseLiteral,
    node .variableDeclaration [node .int [], id "limit"]]

/-- That program is accepted in the opposite order. -/
theorem checkProgram_ignores_order_mutual :
    mutualProgram.children.Perm mutualProgram.children.reverse ∧
      EntryPointsApart mutualProgram.children ∧
      ∃ p q, checkProgram mutualProgram = .ok p ∧
        checkProgram { mutualProgram with children := mutualProgram.children.reverse } = .ok q ∧
        p.scopes.globals.Agrees q.scopes.globals := by
  have perm : mutualProgram.children.Perm mutualProgram.children.reverse :=
    (List.reverse_perm _).symm
  have apart : EntryPointsApart mutualProgram.children := by decide
  obtain ⟨sameAnswer, sameGlobals⟩ := checkProgram_ignores_order perm apart
  obtain ⟨p, hp⟩ : ∃ p, checkProgram mutualProgram = .ok p :=
    Lower.exists_checked_of_isOk (by decide +kernel)
  obtain ⟨q, hq⟩ := sameAnswer.mp ⟨p, hp⟩
  exact ⟨perm, apart, p, q, hp, hq, sameGlobals p q hp hq⟩

end Check

end TreeWat
