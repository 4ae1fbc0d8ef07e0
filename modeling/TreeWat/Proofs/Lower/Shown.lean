import TreeWat.Proofs.Lower.Debug
import TreeWat.Proofs.Lower.Loops
set_option autoImplicit false

/-!
# Lower: what comments show

A comment in generated code is the surface form of an expression of the program.  As a
statement about every tree, checked or not: whatever a lowering step puts into its code, the
texts of the comments are those of nodes below the one it was given.
-/

namespace TreeWat.Lower

open Wat (Code Op Instr comments)

/-! ## Results of steps -/

/-- If the step ends well, its result is as given. -/
def Yields {α : Type} (P : α → Prop) (x : Step α) : Prop :=
  ∀ s a s', x s = .ok (a, s') → P a

namespace Yields

variable {α β : Type} {P : α → Prop} {Q : β → Prop}

theorem pure {a : α} (h : P a) : Yields P (pure a : Step α) := by
  intro s a' s' heq
  cases heq
  exact h

theorem throw (f : Failure) : Yields P (throw f : Step α) := by
  intro s a s' heq
  cases heq

theorem bind {x : Step α} {g : α → Step β} (hx : Yields P x) (hg : ∀ a, P a → Yields Q (g a)) :
    Yields Q (x >>= g) := by
  intro s b s' heq
  obtain ⟨a, s₁, ha, hb⟩ := step_bind_ok.mp heq
  exact hg a (hx s a s₁ ha) s₁ b s' hb

/-- Nothing is asked of the result of the first step. -/
theorem behind {x : Step α} {g : α → Step β} (hg : ∀ a, Yields Q (g a)) :
    Yields Q (x >>= g) := by
  intro s b s' heq
  obtain ⟨a, s₁, -, hb⟩ := step_bind_ok.mp heq
  exact hg a s₁ b s' hb

theorem mono {P' : α → Prop} {x : Step α} (hx : Yields P x) (weaker : ∀ a, P a → P' a) :
    Yields P' x :=
  fun s a s' heq => weaker a (hx s a s' heq)

end Yields

/-! ## Comments from a tree -/

/-- Every text is the surface form of a node of the tree. -/
def Shows (n : Node) (texts : List Bytes) : Prop :=
  ∀ text ∈ texts, ∃ m ∈ n.preorder, text = m.render

namespace Shows

variable {n : Node} {texts more : List Bytes}

@[simp] theorem nil (n : Node) : Shows n [] :=
  fun _ h => absurd h List.not_mem_nil

theorem append (h : Shows n texts) (h' : Shows n more) : Shows n (texts ++ more) :=
  List.forall_mem_append.mpr ⟨h, h'⟩

theorem below {m : Node} (h : Shows m texts) (hm : m ∈ n.preorder) : Shows n texts := by
  intro text htext
  obtain ⟨k, hk, hrender⟩ := h text htext
  exact ⟨k, Node.mem_preorder_trans hm hk, hrender⟩

theorem of_child {m : Node} (h : Shows m texts) (hm : m ∈ n.children) : Shows n texts :=
  h.below (Node.mem_preorder_of_child hm m.mem_preorder_self)

theorem commented {m : Node} {env : Env} {code : Code} (h : Shows m (comments code)) :
    Shows m (comments (Lower.commented env m code)) := by
  unfold Lower.commented
  split
  · rw [Wat.comments_append]
    refine h.append fun text htext => ⟨m, m.mem_preorder_self, ?_⟩
    simpa using htext
  · exact h

end Shows

/-- The comments in the code of the step show nodes of the tree. -/
def StepShows (n : Node) (x : Step Code) : Prop :=
  Yields (fun code => Shows n (comments code)) x

theorem StepShows.of_child {n m : Node} {x : Step Code} (h : StepShows m x)
    (hm : m ∈ n.children) : StepShows n x :=
  h.mono fun _ hcode => hcode.of_child hm

theorem comments_callCode (owner : Scope) (callee : Node) :
    comments (callCode owner callee) = [] := by
  unfold callCode
  split <;> simp

section Expressions

variable {env : Env}

theorem arguments_show {list : Node} {args : List Node} (among : ∀ a ∈ args, a ∈ list.children)
    (each : ∀ a ∈ args, StepShows a (expression env a)) : StepShows list (arguments env args) := by
  induction args with
  | nil =>
    rw [arguments]
    exact .pure (by simp)
  | cons a rest ih =>
    rw [arguments]
    obtain ⟨ha, hrest⟩ := List.forall_mem_cons.mp among
    refine (each a List.mem_cons_self).bind fun code hcode => ?_
    refine (ih hrest fun b hb => each b (List.mem_cons_of_mem _ hb)).bind fun more hmore => ?_
    refine .pure ?_
    rw [Wat.comments_append]
    exact (hcode.commented.of_child ha).append hmore

theorem expression_shows (n : Node) : StepShows n (expression env n) := by
  induction n using Node.induction with
  | step n ih =>
    rcases n with ⟨kind, attr, loc, note, children⟩
    have each : ∀ c ∈ children, StepShows ⟨kind, attr, loc, note, children⟩ (expression env c) :=
      fun c hc => (ih c (Node.mem_descendants_of_child hc)).of_child hc
    cases kind
    case id =>
      rw [expression]
      exact .behind fun op => .pure (by simp)
    case functionInvocation =>
      rcases children with _ | ⟨callee, _ | ⟨⟨listKind, listAttr, listLoc, listNote, args⟩, rest⟩⟩
      · rw [expression]
        exact .throw _
      · rw [expression]
        exact .behind fun _ => .throw _
      · rw [expression]
        refine .behind fun owner => ?_
        split
        · cases args with
          | nil => exact .throw _
          | cons literal _ =>
            refine .behind fun place => .pure ?_
            simp [comments_callCode]
        · have hargs : StepShows ⟨listKind, listAttr, listLoc, listNote, args⟩ (arguments env args) :=
            arguments_show (fun a ha => ha) fun a ha => ih a (Node.mem_descendants_of_argument ha)
          have here : StepShows ⟨.functionInvocation, attr, loc, note, callee ::
              ⟨listKind, listAttr, listLoc, listNote, args⟩ :: rest⟩ (arguments env args) :=
            hargs.of_child (List.mem_cons_of_mem _ List.mem_cons_self)
          refine here.bind fun code hcode => .pure ?_
          simpa [comments_callCode] using hcode
    case binary op =>
      rcases children with _ | ⟨l, _ | ⟨r, rest⟩⟩
      · rw [expression]
        exact .throw _
      · rw [expression]
        split
        · exact .throw _
        · exact .behind fun _ => .throw _
      · have hleft := each l List.mem_cons_self
        have hright := each r (List.mem_cons_of_mem _ List.mem_cons_self)
        cases op
        case assign =>
          rw [expression]
          refine hright.bind fun value hvalue => .behind fun put => .behind fun again => .pure ?_
          simpa using hvalue
        case and | or =>
          rw [expression]
          refine hleft.bind fun left hl => hright.bind fun right hr => .pure ?_
          simpa using hl.append hr
        all_goals
          rw [expression]
          · refine hleft.bind fun left hl => hright.bind fun right hr => .pure ?_
            simpa using hl.append hr
          all_goals simp
    case unary op =>
      rcases children with _ | ⟨e, rest⟩
      · rw [expression]
        exact .throw _
      · rw [expression]
        refine (each e List.mem_cons_self).bind fun code hcode => ?_
        cases op <;> exact .pure (by simpa using hcode)
    case num | string | trueLiteral | falseLiteral =>
      rw [expression]
      exact .pure (by simp)
    all_goals
      rw [expression]
      · exact .throw _
      all_goals simp

theorem topExpression_shows (n : Node) : StepShows n (topExpression env n) := by
  unfold topExpression
  exact (expression_shows n).bind fun code hcode => .pure hcode.commented

end Expressions

/-! ## Statements and functions -/

section Statements

variable {env : Env}

theorem comments_discarding (n : Node) (code : Code) :
    comments (discarding n code) = comments code := by
  unfold discarding
  split <;> simp

theorem comments_whileLoop (num : Nat) (cond body again : Code) :
    (whileLoop num cond body again).comments = comments cond ++ (comments body ++ comments again) := by
  simp [whileLoop]

theorem statements_show {n : Node} {loops : List Nat} {ss : List Node}
    (among : ∀ s ∈ ss, s ∈ n.children)
    (each : ∀ s ∈ ss, ∀ loops, StepShows s (statement env loops s)) :
    StepShows n (statements env loops ss) := by
  induction ss with
  | nil =>
    rw [statements]
    exact .pure (by simp)
  | cons s rest ih =>
    rw [statements]
    obtain ⟨hs, hrest⟩ := List.forall_mem_cons.mp among
    refine Yields.bind ((each s List.mem_cons_self loops).of_child hs) fun code hcode => ?_
    refine (ih hrest fun t ht => each t (List.mem_cons_of_mem _ ht)).bind fun more hmore => ?_
    refine .pure ?_
    rw [Wat.comments_append]
    exact hcode.append hmore

theorem statement_shows (n : Node) :
    ∀ loops : List Nat, StepShows n (statement env loops n) := by
  induction n using Node.induction with
  | step n ih =>
    intro loops
    rcases n with ⟨kind, attr, loc, note, children⟩
    have each : ∀ c ∈ children, ∀ loops,
        StepShows ⟨kind, attr, loc, note, children⟩ (statement env loops c) :=
      fun c hc loops => (ih c (Node.mem_descendants_of_child hc) loops).of_child hc
    have shown : ∀ c ∈ children,
        StepShows ⟨kind, attr, loc, note, children⟩ (topExpression env c) :=
      fun c hc => (topExpression_shows c).of_child hc
    cases kind
    case block =>
      rw [statement]
      exact statements_show (fun s hs => hs) fun s hs => ih s (Node.mem_descendants_of_child hs)
    case variableDeclaration | nullStatement =>
      rw [statement]
      exact .pure (by simp)
    case statementExpression =>
      rcases children with _ | ⟨e, rest⟩
      · rw [statement]
        exact .throw _
      · rw [statement]
        refine (shown e List.mem_cons_self).bind fun code hcode => .pure ?_
        rw [comments_discarding]
        exact hcode
    case functionInvocation =>
      rw [statement]
      refine (expression_shows _).bind fun code hcode => .pure ?_
      rw [comments_discarding]
      exact hcode
    case ifThen =>
      rcases children with _ | ⟨cond, _ | ⟨arm, rest⟩⟩
      · rw [statement]
        exact .throw _
      · rw [statement]
        exact .behind fun _ => .throw _
      · rw [statement]
        refine (shown cond (by simp)).bind fun test htest => ?_
        refine (each arm (by simp) loops).bind fun code hcode => .pure ?_
        simpa using htest.append hcode
    case ifElse =>
      rcases children with _ | ⟨cond, _ | ⟨arm₁, _ | ⟨arm₂, rest⟩⟩⟩
      · rw [statement]
        exact .throw _
      · rw [statement]
        exact .behind fun _ => .throw _
      · rw [statement]
        exact .behind fun _ => .behind fun _ => .throw _
      · rw [statement]
        refine (shown cond (by simp)).bind fun test htest => ?_
        refine (each arm₁ (by simp) loops).bind fun code₁ hcode₁ => ?_
        refine (each arm₂ (by simp) loops).bind fun code₂ hcode₂ => .pure ?_
        simpa using htest.append (hcode₁.append hcode₂)
    case «while» =>
      rcases children with _ | ⟨cond, _ | ⟨body, rest⟩⟩
      · rw [statement]
        exact .throw _
      · rw [statement]
        exact .behind fun _ => .throw _
      · rw [statement]
        refine .behind fun num => (shown cond (by simp)).bind fun test htest => ?_
        refine (each body (by simp) (num :: loops)).bind fun code hcode => ?_
        refine (shown cond (by simp)).bind fun again hagain => .pure ?_
        simpa [comments_whileLoop] using htest.append (hcode.append hagain)
    case «return» =>
      rcases children with _ | ⟨value, rest⟩
      · rw [statement]
        exact .pure (by simp)
      · rw [statement]
        refine (shown value List.mem_cons_self).bind fun code hcode => .pure ?_
        simpa using hcode
    case «break» =>
      cases loops with
      | nil =>
        rw [statement]
        exact .throw _
      | cons num outer =>
        rw [statement]
        exact .pure (by simp)
    all_goals
      rw [statement]
      · exact .throw _
      all_goals simp

end Statements

theorem childOf_yields (n : Node) (i : Nat) : Yields (fun c => c ∈ n.children) (childOf n i) := by
  unfold childOf
  cases h : n.child i with
  | ok c => exact .pure (List.mem_of_getElem? (Node.child_ok_iff.mp h))
  | error e => exact .throw _

theorem functionNamed_shows (env : Env) (body result : Node) (ps : List Node) (name : Bytes) :
    Yields (fun f => Shows body (comments f.body)) (functionNamed env body result ps name) := by
  unfold functionNamed
  refine .behind fun names => .behind fun owner => ?_
  split
  · exact .throw _
  · refine (statement_shows body []).bind fun code hcode => .pure ?_
    dsimp only
    split
    · simpa using hcode
    · exact hcode

theorem function_shows (env : Env) (decl : Node) :
    Yields (fun f => Shows decl (comments f.body)) (function env decl) := by
  rw [function_eq]
  refine (childOf_yields decl 3).bind fun body hbody => .behind fun result => .behind fun params => ?_
  have within : ∀ f : Wat.Func Op, Shows body (comments f.body) → Shows decl (comments f.body) :=
    fun f hf => hf.of_child hbody
  split
  · exact (functionNamed_shows env body result [] entryName).mono within
  · refine .behind fun id => .behind fun name => ?_
    exact (functionNamed_shows env body result params.children name).mono within

theorem declarations_show {env : Env} {root : Node} {ds : List Node}
    (among : ∀ d ∈ ds, d ∈ root.children) :
    Yields (fun parts => Shows root (parts.funcs.flatMap fun f => comments f.body))
      (declarations env ds) := by
  induction ds with
  | nil =>
    rw [declarations]
    exact .pure (by simp)
  | cons d rest ih =>
    obtain ⟨hd, hrest⟩ := List.forall_mem_cons.mp among
    rw [declarations]
    split
    · refine (function_shows env d).bind fun f hf => (ih hrest).bind fun parts hparts => .pure ?_
      simpa using (hf.of_child hd).append hparts
    · refine (function_shows env d).bind fun f hf => (ih hrest).bind fun parts hparts => .pure ?_
      simpa using (hf.of_child hd).append hparts
    · exact .behind fun id => .behind fun name => (ih hrest).bind fun parts hparts => .pure hparts
    · exact ih hrest

theorem libraryFuncs_yields (env : Env) :
    Yields (fun fs => fs.flatMap (fun f => comments f.body) = []) (libraryFuncs env) := by
  unfold libraryFuncs
  exact .behind fun yes => .behind fun no => .pure rfl

/-- The comments of a module show expressions of its program. -/
theorem program_shows {env : Env} {root : Node} {m : Wat.Module Op}
    (lowered : program env root = .ok m) : Shows root m.comments := by
  have hmodule : Yields (fun m => Shows root (Wat.Module.comments m)) (moduleOf env root) := by
    unfold moduleOf
    refine (libraryFuncs_yields env).bind fun library hlibrary => ?_
    refine (declarations_show fun d hd => hd).bind fun parts hparts => .behind fun s => .pure ?_
    simpa [Wat.Module.comments, hlibrary] using hparts
  unfold program at lowered
  rcases hrun : moduleOf env root .initial with f | ⟨m', s⟩
  · rw [hrun] at lowered
    cases lowered
  · rw [hrun] at lowered
    cases lowered
    exact hmodule _ _ _ hrun

end TreeWat.Lower
