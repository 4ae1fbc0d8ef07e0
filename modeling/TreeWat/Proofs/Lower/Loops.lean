import TreeWat.Proofs.Lower.Program
import TreeWat.Proofs.Lower.Traced
import TreeWat.Proofs.Text.Numeral
set_option autoImplicit false

/-!
# Lower: loops and branches

The blocks, loops and branches of a module come from the `while` and `break` statements of
the program, and from nothing else.  `jumps` lists them for a piece of code, each branch with
the blocks around it, and `siteJumps` says what a statement contributes.

Main statement: if lowering a statement ends well, its code has the jumps of the statements
in it, in source order, and the generator has entered each of them with the numbers of the
`while` statements around it on its stack (`Lowered`, `lowered_of_tracedStatement`).  This
holds of all trees, whether the checker has seen them or not.
-/

namespace TreeWat.Lower

open Wat (Code Op Instr)

/-- Two steps in a row end well exactly if both do. -/
theorem step_bind_ok {α β : Type} {x : Step α} {g : α → Step β} {s s' : State} {b : β} :
    (x >>= g) s = .ok (b, s') ↔ ∃ a s₁, x s = .ok (a, s₁) ∧ g a s₁ = .ok (b, s') := by
  show Except.bind (x s) (fun r => g r.1 r.2) = _ ↔ _
  cases x s with
  | error f => simp [Except.bind]
  | ok r =>
    simp only [Except.bind, Except.ok.injEq]
    constructor
    · exact fun h => ⟨r.1, r.2, rfl, h⟩
    · rintro ⟨a, s₁, rfl, h⟩
      exact h

/-! ## Jumps -/

/-- What shapes the control flow of loops in code. -/
inductive Jump where
  /-- A block with the given label, and the labels of the loops directly in it. -/
  | block (label : Bytes) (loops : List Bytes)
  | loop (label : Bytes)
  /-- An unconditional branch, and the labels of the blocks around it, innermost first. -/
  | br (label : Bytes) (around : List Bytes)
  deriving DecidableEq, Repr

/-- The label of a loop. -/
def loopLabel? : Instr Op → Option Bytes
  | .loop label _ => some label
  | _ => none

mutual

/-- The jumps in code, in order, with the given labels of blocks around. -/
def jumps (around : List Bytes) : Code → List Jump
  | [] => []
  | i :: rest => jumpsAt around i ++ jumps around rest

/-- The same for a single instruction. -/
def jumpsAt (around : List Bytes) : Instr Op → List Jump
  | .op (.br label) => [.br label around]
  | .op _ => []
  | .comment _ => []
  | .block label body => .block label (body.filterMap loopLabel?) :: jumps (label :: around) body
  | .loop label body => .loop label :: jumps around body
  | .cond whenTrue whenFalse => jumps around whenTrue ++ jumps around whenFalse

end

@[simp] theorem jumps_nil (around : List Bytes) : jumps around [] = [] := by
  rw [jumps]

@[simp] theorem jumps_cons (around : List Bytes) (i : Instr Op) (code : Code) :
    jumps around (i :: code) = jumpsAt around i ++ jumps around code := by
  rw [jumps]

@[simp] theorem jumps_append (around : List Bytes) (code₁ code₂ : Code) :
    jumps around (code₁ ++ code₂) = jumps around code₁ ++ jumps around code₂ := by
  induction code₁ with
  | nil => simp
  | cons i rest ih => simp [ih]

/-- Code without jumps has no loops. -/
theorem loopLabels_eq_nil {code : Code} {around : List Bytes} (plain : jumps around code = []) :
    code.filterMap loopLabel? = [] := by
  induction code with
  | nil => rfl
  | cons i rest ih =>
    rw [jumps_cons, List.append_eq_nil_iff] at plain
    cases i with
    | loop label body => simp [jumpsAt] at plain
    | _ => simpa [loopLabel?] using ih plain.2

/-- The jumps that a statement itself brings into the code. -/
def siteJumps (site : Site) : List Jump :=
  match site.node.kind, site.loops with
  | .while, _ =>
    [.block (breakLabel site.number) [loopLabel site.number], .loop (loopLabel site.number)]
  | .break, num :: outer => [.br (breakLabel num) ((num :: outer).map breakLabel)]
  | _, _ => []

theorem breakLabel_injective : Function.Injective breakLabel := fun _ _ h =>
  Bytes.ofNat_injective (List.append_cancel_left h)

theorem loopLabel_injective : Function.Injective loopLabel := fun _ _ h =>
  Bytes.ofNat_injective (List.append_cancel_left h)

/-- The label of a block and those of the loops directly in it. -/
def Jump.block? : Jump → Option (Bytes × List Bytes)
  | .block label loops => some (label, loops)
  | _ => none

/-- The label of a loop. -/
def Jump.loop? : Jump → Option Bytes
  | .loop label => some label
  | _ => none

/-- The target of a branch and the labels of the blocks around it. -/
def Jump.br? : Jump → Option (Bytes × List Bytes)
  | .br label around => some (label, around)
  | _ => none

/-- What only `while` statements bring, each of them one item. -/
theorem filterMap_siteJumps {α : Type} {pick : Jump → Option α} {item : Nat → α}
    {sites : List Site} (each : ∀ site ∈ sites, (siteJumps site).filterMap pick =
      if site.node.kind = .while then [item site.number] else []) :
    (sites.flatMap siteJumps).filterMap pick = (whileNumbers sites).map item := by
  induction sites with
  | nil => rfl
  | cons site rest ih =>
    have others := ih fun site hsite => each site (List.mem_cons_of_mem _ hsite)
    rw [List.flatMap_cons, List.filterMap_append, others, each site List.mem_cons_self]
    by_cases isWhile : site.node.kind = .while
    · rw [if_pos isWhile, whileNumbers_while isWhile]
      rfl
    · rw [if_neg isWhile, whileNumbers_other isWhile]
      rfl

/-- Each `while` statement brings one block, with one loop directly in it. -/
theorem blocks_siteJumps (sites : List Site) :
    (sites.flatMap siteJumps).filterMap Jump.block? =
      (whileNumbers sites).map fun num => (breakLabel num, [loopLabel num]) := by
  refine filterMap_siteJumps fun site _ => ?_
  rcases site with ⟨place, ⟨kind, attr, loc, note, children⟩, number, loops⟩
  cases kind
  case «break» => cases loops <;> rfl
  all_goals rfl

/-- Each `while` statement brings one loop. -/
theorem loops_siteJumps (sites : List Site) :
    (sites.flatMap siteJumps).filterMap Jump.loop? = (whileNumbers sites).map loopLabel := by
  refine filterMap_siteJumps fun site _ => ?_
  rcases site with ⟨place, ⟨kind, attr, loc, note, children⟩, number, loops⟩
  cases kind
  case «break» => cases loops <;> rfl
  all_goals rfl

/-! ## Expressions have no jumps -/

/-- Code without jumps. -/
def Straight (code : Code) : Prop :=
  ∀ around, jumps around code = []

theorem Straight.append {code₁ code₂ : Code} (h₁ : Straight code₁) (h₂ : Straight code₂) :
    Straight (code₁ ++ code₂) := fun around => by
  rw [jumps_append, h₁, h₂, List.append_nil]

theorem Straight.cond {whenTrue whenFalse : Code} (h₁ : Straight whenTrue)
    (h₂ : Straight whenFalse) : Straight [.cond whenTrue whenFalse] := fun around => by
  simp [jumpsAt, h₁ around, h₂ around]

/-- The step hands out no label, and if it ends well, its result is as given. -/
def Quiet {α : Type} (Q : α → Prop) (x : Step α) : Prop :=
  ∀ s a s', x s = .ok (a, s') → s'.labels = s.labels ∧ Q a

namespace Quiet

variable {α β : Type} {P : α → Prop} {Q : β → Prop}

theorem pure {a : α} (h : P a) : Quiet P (pure a : Step α) := by
  intro s a' s' heq
  cases heq
  exact ⟨rfl, h⟩

theorem throw (f : Failure) : Quiet P (throw f : Step α) := by
  intro s a s' heq
  cases heq

theorem bind {x : Step α} {g : α → Step β} (hx : Quiet P x) (hg : ∀ a, P a → Quiet Q (g a)) :
    Quiet Q (x >>= g) := by
  intro s b s' heq
  obtain ⟨a, s₁, ha, hb⟩ := step_bind_ok.mp heq
  obtain ⟨hlabels, hP⟩ := hx s a s₁ ha
  obtain ⟨hlabels', hQ⟩ := hg a hP s₁ b s' hb
  exact ⟨hlabels'.trans hlabels, hQ⟩

/-- What a step of this kind hands on to the next. -/
theorem run {x : Step α} {g : α → Step β} (hx : Quiet P x) {s s' : State} {b : β}
    (h : (x >>= g) s = .ok (b, s')) :
    ∃ a s₁, s₁.labels = s.labels ∧ P a ∧ g a s₁ = .ok (b, s') := by
  obtain ⟨a, s₁, ha, hb⟩ := step_bind_ok.mp h
  obtain ⟨hlabels, hP⟩ := hx s a s₁ ha
  exact ⟨a, s₁, hlabels, hP, hb⟩

end Quiet

/-- The step never ends well. -/
def Fails {α : Type} (x : Step α) : Prop :=
  ∀ s r, x s ≠ .ok r

namespace Fails

variable {α β : Type}

theorem throw (f : Failure) : Fails (throw f : Step α) := by
  intro s r heq
  cases heq

theorem bind {x : Step α} {g : α → Step β} (hg : ∀ a, Fails (g a)) : Fails (x >>= g) := by
  rintro s ⟨b, s'⟩ heq
  obtain ⟨a, s₁, -, hb⟩ := step_bind_ok.mp heq
  exact hg a s₁ _ hb

theorem bind_left {x : Step α} {g : α → Step β} (hx : Fails x) : Fails (x >>= g) := by
  rintro s ⟨b, s'⟩ heq
  obtain ⟨a, s₁, ha, -⟩ := step_bind_ok.mp heq
  exact hx s _ ha

end Fails

section Expressions

variable {env : Env}

theorem ownerOf_quiet (id : Node) : Quiet (fun _ => True) (ownerOf env id) := by
  unfold ownerOf
  split
  · exact .pure trivial
  · exact .throw _

theorem load_quiet (id : Node) : Quiet (fun op => Straight [.op op]) (load env id) := by
  refine (ownerOf_quiet id).bind fun owner _ => .pure fun around => ?_
  split
  · rfl
  · rfl

theorem store_quiet (id : Node) : Quiet (fun op => Straight [.op op]) (store env id) := by
  refine (ownerOf_quiet id).bind fun owner _ => .pure fun around => ?_
  split
  · rfl
  · rfl

theorem intern_quiet (raw : Bytes) : Quiet (fun _ => True) (intern raw) := by
  intro s a s' heq
  cases heq
  exact ⟨rfl, trivial⟩

theorem callCode_straight (owner : Scope) (callee : Node) : Straight (callCode owner callee) := by
  refine Straight.append (fun around => rfl) fun around => ?_
  split
  · rfl
  · rfl

theorem commented_straight {n : Node} {code : Code} (h : Straight code) :
    Straight (commented env n code) := by
  unfold commented
  split
  · exact h.append fun around => rfl
  · exact h

theorem arguments_quiet {args : List Node}
    (each : ∀ a ∈ args, Quiet Straight (expression env a)) : Quiet Straight (arguments env args) := by
  induction args with
  | nil =>
    rw [arguments]
    exact .pure fun around => rfl
  | cons a rest ih =>
    rw [arguments]
    refine (each a List.mem_cons_self).bind fun code hcode => ?_
    refine (ih fun a ha => each a (List.mem_cons_of_mem _ ha)).bind fun more hmore => ?_
    exact .pure ((commented_straight hcode).append hmore)

/-- The code of an expression has no jumps. -/
theorem expression_quiet (n : Node) : Quiet Straight (expression env n) := by
  induction n using Node.induction with
  | step n ih =>
    rcases n with ⟨kind, attr, loc, note, children⟩
    have each : ∀ c ∈ children, Quiet Straight (expression env c) :=
      fun c hc => ih c (Node.mem_descendants_of_child hc)
    cases kind
    case id =>
      rw [expression]
      exact (load_quiet _).bind fun op hop => .pure hop
    case functionInvocation =>
      rcases children with _ | ⟨callee, _ | ⟨⟨listKind, listAttr, listLoc, listNote, args⟩, rest⟩⟩
      · rw [expression]
        exact .throw _
      · rw [expression]
        exact (ownerOf_quiet callee).bind fun _ _ => .throw _
      · rw [expression]
        refine (ownerOf_quiet callee).bind fun owner _ => ?_
        split
        · cases args with
          | nil => exact .throw _
          | cons literal _ =>
            refine (intern_quiet literal.attr).bind fun _ _ => .pure ?_
            exact Straight.append (fun around => rfl) (callCode_straight owner callee)
        · have hargs : ∀ a ∈ args, Quiet Straight (expression env a) := fun a ha =>
            ih a (Node.mem_descendants_of_argument ha)
          exact (arguments_quiet hargs).bind fun code hcode =>
            .pure (hcode.append (callCode_straight owner callee))
    case binary op =>
      rcases children with _ | ⟨l, _ | ⟨r, rest⟩⟩
      · rw [expression]
        exact .throw _
      · rw [expression]
        split
        · exact .throw _
        · exact (each l List.mem_cons_self).bind fun _ _ => .throw _
      · have hleft := each l List.mem_cons_self
        have hright := each r (List.mem_cons_of_mem _ List.mem_cons_self)
        have number : ∀ n : Int, Straight [.op (.number n)] := fun _ _ => rfl
        have get : Straight [.op (.localGet scratch)] := fun _ => rfl
        have set : Straight [.op (.localSet scratch)] := fun _ => rfl
        cases op
        case assign =>
          rw [expression]
          refine hright.bind fun value hvalue => (store_quiet l).bind fun put hput => ?_
          exact (load_quiet l).bind fun again hagain => .pure (hvalue.append (hput.append hagain))
        case and =>
          rw [expression]
          refine hleft.bind fun left hl => hright.bind fun right hr => .pure ?_
          exact hl.append (((hr.append set).cond ((number 0).append set)).append get)
        case or =>
          rw [expression]
          refine hleft.bind fun left hl => hright.bind fun right hr => .pure ?_
          exact hl.append ((((number 1).append set).cond (hr.append set)).append get)
        all_goals
          rw [expression]
          · exact hleft.bind fun left hl => hright.bind fun right hr =>
              .pure ((hl.append hr).append fun around => rfl)
          all_goals simp
    case unary op =>
      rcases children with _ | ⟨e, rest⟩
      · rw [expression]
        exact .throw _
      · rw [expression]
        refine (each e List.mem_cons_self).bind fun code hcode => ?_
        cases op with
        | neg => exact .pure ((Straight.append (fun around => rfl) hcode).append fun around => rfl)
        | not => exact .pure (hcode.append fun around => rfl)
    case num | string | trueLiteral | falseLiteral =>
      rw [expression]
      exact .pure fun around => rfl
    all_goals
      rw [expression]
      · exact .throw _
      all_goals simp

theorem topExpression_quiet (n : Node) : Quiet Straight (topExpression env n) := by
  unfold topExpression
  exact (expression_quiet n).bind fun code hcode => .pure (commented_straight hcode)

end Expressions

/-! ## Statements -/

/-- Lowering statements from `s` to `s'`, inside the given loops, gave code and a log for the
given sites, which hold so many `while` statements. -/
structure Lowered (loops : List Nat) (whiles : Nat) (sites : List Site) (s : State) (code : Code)
    (log : Log) (s' : State) : Prop where
  labels : s'.labels = s.labels + whiles
  log : log = sites.map fun site => (site.place, site.loops)
  jumps : jumps (loops.map breakLabel) code = sites.flatMap siteJumps

namespace Lowered

variable {loops : List Nat} {s s₁ s' : State}

theorem nil (loops : List Nat) (s : State) : Lowered loops 0 [] s [] [] s :=
  ⟨rfl, rfl, rfl⟩

theorem append {whiles₁ whiles₂ : Nat} {sites₁ sites₂ : List Site} {code₁ code₂ : Code}
    {log₁ log₂ : Log} (h₁ : Lowered loops whiles₁ sites₁ s code₁ log₁ s₁)
    (h₂ : Lowered loops whiles₂ sites₂ s₁ code₂ log₂ s') :
    Lowered loops (whiles₁ + whiles₂) (sites₁ ++ sites₂) s (code₁ ++ code₂) (log₁ ++ log₂) s' where
  labels := by rw [h₂.labels, h₁.labels, Nat.add_assoc]
  log := by rw [h₁.log, h₂.log, List.map_append]
  jumps := by rw [jumps_append, h₁.jumps, h₂.jumps, List.flatMap_append]

/-- A statement that brings no jumps of its own. -/
theorem cons {whiles : Nat} {sites : List Site} {code : Code} {log : Log}
    (h : Lowered loops whiles sites s code log s') {site : Site} (none : siteJumps site = []) :
    Lowered loops whiles (site :: sites) s code ((site.place, site.loops) :: log) s' where
  labels := h.labels
  log := by rw [h.log, List.map_cons]
  jumps := by rw [h.jumps, List.flatMap_cons, none, List.nil_append]

/-- Code without jumps in front. -/
theorem straight {whiles : Nat} {sites : List Site} {test code : Code} {log : Log}
    (hlabels : s₁.labels = s.labels) (htest : Straight test)
    (h : Lowered loops whiles sites s₁ code log s') :
    Lowered loops whiles sites s (test ++ code) log s' where
  labels := by rw [h.labels, hlabels]
  log := h.log
  jumps := by rw [jumps_append, htest, h.jumps, List.nil_append]

/-- The body of a function, whose end may be marked as never reached. -/
theorem body {whiles : Nat} {sites : List Site} {code : Code} {log : Log}
    (h : Lowered loops whiles sites s₁ code log s') (hlabels : s₁.labels = s.labels)
    (hasResult : Bool) :
    Lowered loops whiles sites s (if hasResult then code ++ [.op .unreachable] else code) log
      s' where
  labels := by rw [h.labels, hlabels]
  log := h.log
  jumps := by
    cases hasResult
    · exact h.jumps
    · rw [if_pos rfl, jumps_append, h.jumps]
      exact List.append_nil _

/-- The two arms of a conditional. -/
theorem cond {whiles₁ whiles₂ : Nat} {sites₁ sites₂ : List Site} {code₁ code₂ : Code}
    {log₁ log₂ : Log} (h₁ : Lowered loops whiles₁ sites₁ s code₁ log₁ s₁)
    (h₂ : Lowered loops whiles₂ sites₂ s₁ code₂ log₂ s') :
    Lowered loops (whiles₁ + whiles₂) (sites₁ ++ sites₂) s [.cond code₁ code₂] (log₁ ++ log₂)
      s' where
  labels := (h₁.append h₂).labels
  log := (h₁.append h₂).log
  jumps := by
    rw [← (h₁.append h₂).jumps, jumps_append]
    simp [jumpsAt]

end Lowered

/-- The jumps of a loop whose condition is tested in front of it and at its end. -/
theorem jumps_whileLoop {around : List Bytes} {num : Nat} {test code again : Code}
    (htest : Straight test) (hagain : Straight again) :
    jumps around [whileLoop num test code again] =
      .block (breakLabel num) [loopLabel num] :: .loop (loopLabel num) ::
        jumps (breakLabel num :: around) code := by
  have hloops := loopLabels_eq_nil (htest around)
  simp [whileLoop, jumpsAt, htest (breakLabel num :: around), hagain (breakLabel num :: around),
    hloops]
  rfl

section Statements

variable {env : Env}

theorem discarding_straight {n : Node} {code : Code} (h : Straight code) :
    Straight (discarding n code) := by
  unfold discarding
  split
  · exact h.append fun around => rfl
  · exact h

/-- The statements that hold no other statement, `break` apart, are code without jumps. -/
theorem statement_quiet {loops : List Nat} {n : Node}
    (single : n.kind ∉ [Kind.block, .ifThen, .ifElse, .while, .break]) :
    Quiet Straight (statement env loops n) := by
  rcases n with ⟨kind, attr, loc, note, children⟩
  cases kind
  case block | ifThen | ifElse | «while» | «break» => simp at single
  case variableDeclaration | nullStatement =>
    rw [statement]
    exact .pure fun around => rfl
  case statementExpression =>
    rcases children with _ | ⟨e, rest⟩
    · rw [statement]
      exact .throw _
    · rw [statement]
      exact (topExpression_quiet e).bind fun code hcode => .pure (discarding_straight hcode)
  case functionInvocation =>
    rw [statement]
    exact (expression_quiet _).bind fun code hcode => .pure (discarding_straight hcode)
  case «return» =>
    rcases children with _ | ⟨value, rest⟩
    · rw [statement]
      exact .pure fun around => rfl
    · rw [statement]
      exact (topExpression_quiet value).bind fun code hcode =>
        .pure (hcode.append fun around => rfl)
  all_goals
    rw [statement]
    · exact .throw _
    all_goals simp

/-- How many children a statement with arms has to have. -/
def arity : Kind → Nat
  | .ifThen => 2
  | .ifElse => 3
  | .while => 2
  | _ => 0

/-- A statement that lacks an arm cannot be lowered. -/
theorem statement_fails {loops : List Nat} {n : Node} (few : n.children.length < arity n.kind) :
    Fails (statement env loops n) := by
  rcases n with ⟨kind, attr, loc, note, children⟩
  cases kind
  case ifThen =>
    rcases children with _ | ⟨cond, _ | ⟨arm, rest⟩⟩
    · rw [statement]
      exact .throw _
    · rw [statement]
      exact .bind fun _ => .throw _
    · simp only [List.length_cons, arity] at few
      omega
  case ifElse =>
    rcases children with _ | ⟨cond, _ | ⟨arm₁, _ | ⟨arm₂, rest⟩⟩⟩
    · rw [statement]
      exact .throw _
    · rw [statement]
      exact .bind fun _ => .throw _
    · rw [statement]
      exact .bind fun _ => .bind fun _ => .throw _
    · simp only [List.length_cons, arity] at few
      omega
  case «while» =>
    rcases children with _ | ⟨cond, _ | ⟨body, rest⟩⟩
    · rw [statement]
      exact .throw _
    · rw [statement]
      exact .bind fun _ => .throw _
    · simp only [List.length_cons, arity] at few
      omega
  all_goals simp [arity] at few

/-- The generator with a log at a statement in which it enters no other. -/
def alone (env : Env) (loops place : List Nat) (n : Node) : Step (Code × Log) := do
  let code ← statement env loops n
  pure (code, [(place, loops)])

/-- A statement that holds no other one. -/
theorem lowered_of_alone {loops place : List Nat} {n : Node} {s s' : State} {code : Code}
    {log : Log} (single : n.kind ∉ [Kind.block, .ifThen, .ifElse, .while, .break])
    (lowered : alone env loops place n s = .ok ((code, log), s')) :
    Lowered loops 0 [⟨place, n, s.labels, loops⟩] s code log s' := by
  obtain ⟨code, s₁, hcode, heq⟩ := step_bind_ok.mp lowered
  cases heq
  obtain ⟨hlabels, hstraight⟩ := statement_quiet single _ _ _ hcode
  refine ⟨hlabels, rfl, ?_⟩
  rw [hstraight]
  rcases n with ⟨kind, attr, loc, note, children⟩
  cases kind <;> first | rfl | simp at single

theorem lowered_of_tracedStatements {ss : List Node} {loops : List Nat} {place : List Nat}
    (each : ∀ t ∈ ss, ∀ {place s code log s'},
      tracedStatement env loops place t s = .ok ((code, log), s') →
        Lowered loops t.whiles (t.sites loops s.labels place) s code log s')
    {i : Nat} {s s' : State} {code : Code} {log : Log}
    (lowered : tracedStatements env loops place i ss s = .ok ((code, log), s')) :
    Lowered loops (Node.whilesAll ss) (Node.sitesAll loops s.labels place i ss) s code log s' := by
  induction ss generalizing i s code log with
  | nil =>
    rw [tracedStatements] at lowered
    cases lowered
    exact .nil loops _
  | cons t rest ih =>
    rw [tracedStatements] at lowered
    obtain ⟨⟨code₁, log₁⟩, s₁, hfirst, lowered⟩ := step_bind_ok.mp lowered
    obtain ⟨⟨code₂, log₂⟩, s₂, hothers, heq⟩ := step_bind_ok.mp lowered
    cases heq
    have first := each t List.mem_cons_self hfirst
    have others := ih (fun t ht => each t (List.mem_cons_of_mem _ ht)) hothers
    rw [first.labels] at others
    exact first.append others

/-- Lowering a statement follows the text. -/
theorem lowered_of_tracedStatement (n : Node) :
    ∀ {loops place s code log s'}, tracedStatement env loops place n s = .ok ((code, log), s') →
      Lowered loops n.whiles (n.sites loops s.labels place) s code log s' := by
  induction n using Node.induction with
  | step n ih =>
    intro loops place s code log s' lowered
    rcases n with ⟨kind, attr, loc, note, children⟩
    have each : ∀ c ∈ children, ∀ {loops place s code log s'},
        tracedStatement env loops place c s = .ok ((code, log), s') →
          Lowered loops c.whiles (c.sites loops s.labels place) s code log s' :=
      fun c hc => ih c (Node.mem_descendants_of_child hc)
    -- a statement without its arms is handed to the generator as it is, which fails
    have lacking : children.length < arity kind →
        tracedStatement env loops place ⟨kind, attr, loc, note, children⟩ =
          alone env loops place ⟨kind, attr, loc, note, children⟩ → False := by
      intro few heq
      rw [heq] at lowered
      exact (statement_fails few).bind_left s _ lowered
    cases kind
    case block =>
      rw [tracedStatement] at lowered
      obtain ⟨⟨code', log'⟩, s₁, hall, heq⟩ := step_bind_ok.mp lowered
      cases heq
      rw [Node.sites]
      exact (lowered_of_tracedStatements (fun t ht => each t ht) hall).cons rfl
    case ifThen =>
      rcases children with _ | ⟨cond, _ | ⟨arm, rest⟩⟩
      · exact (lacking (by simp [arity]) rfl).elim
      · exact (lacking (by simp [arity]) rfl).elim
      · rw [tracedStatement] at lowered
        obtain ⟨test, s₁, htest, lowered⟩ := step_bind_ok.mp lowered
        obtain ⟨⟨code₁, log₁⟩, s₂, harm, heq⟩ := step_bind_ok.mp lowered
        cases heq
        obtain ⟨hlabels, hstraight⟩ := topExpression_quiet cond _ _ _ htest
        have whenTrue := each arm (by simp) harm
        rw [hlabels] at whenTrue
        have arms := whenTrue.cond (.nil loops _)
        rw [Nat.add_zero, List.append_nil, List.append_nil] at arms
        rw [Node.sites]
        exact (arms.straight hlabels hstraight).cons rfl
    case ifElse =>
      rcases children with _ | ⟨cond, _ | ⟨arm₁, _ | ⟨arm₂, rest⟩⟩⟩
      · exact (lacking (by simp [arity]) rfl).elim
      · exact (lacking (by simp [arity]) rfl).elim
      · exact (lacking (by simp [arity]) rfl).elim
      · rw [tracedStatement] at lowered
        obtain ⟨test, s₁, htest, lowered⟩ := step_bind_ok.mp lowered
        obtain ⟨⟨code₁, log₁⟩, s₂, harm₁, lowered⟩ := step_bind_ok.mp lowered
        obtain ⟨⟨code₂, log₂⟩, s₃, harm₂, heq⟩ := step_bind_ok.mp lowered
        cases heq
        obtain ⟨hlabels, hstraight⟩ := topExpression_quiet cond _ _ _ htest
        have whenTrue := each arm₁ (by simp) harm₁
        have whenFalse := each arm₂ (by simp) harm₂
        rw [whenTrue.labels, hlabels] at whenFalse
        rw [hlabels] at whenTrue
        rw [Node.sites]
        exact ((whenTrue.cond whenFalse).straight hlabels hstraight).cons rfl
    case «while» =>
      rcases children with _ | ⟨cond, _ | ⟨body, rest⟩⟩
      · exact (lacking (by simp [arity]) rfl).elim
      · exact (lacking (by simp [arity]) rfl).elim
      · rw [tracedStatement] at lowered
        obtain ⟨num, s₁, hnum, lowered⟩ := step_bind_ok.mp lowered
        obtain ⟨test, s₂, htest, lowered⟩ := step_bind_ok.mp lowered
        obtain ⟨⟨code, log⟩, s₃, hbody, lowered⟩ := step_bind_ok.mp lowered
        obtain ⟨again, s₄, hagain, heq⟩ := step_bind_ok.mp lowered
        cases heq
        cases hnum
        obtain ⟨hlabels, hstraight⟩ := topExpression_quiet cond _ _ _ htest
        obtain ⟨hlabels', hstraight'⟩ := topExpression_quiet cond _ _ _ hagain
        have repeated := each body (by simp) hbody
        rw [hlabels] at repeated
        rw [Node.sites, Node.whiles]
        refine ⟨?_, ?_, ?_⟩
        · rw [hlabels', repeated.labels, hlabels, Nat.add_assoc]
        · rw [repeated.log, List.map_cons]
        · rw [jumps_whileLoop hstraight hstraight', List.flatMap_cons, ← repeated.jumps]
          rfl
    case «break» =>
      cases loops with
      | nil =>
        have hfails : Fails (statement env [] ⟨.break, attr, loc, note, children⟩) := by
          rw [statement]
          exact .throw _
        exact absurd lowered (hfails.bind_left s _)
      | cons num outer =>
        rw [tracedStatement] at lowered
        · rw [statement] at lowered
          cases lowered
          exact ⟨rfl, rfl, rfl⟩
        all_goals simp
    all_goals
      rw [tracedStatement] at lowered
      · exact lowered_of_alone (by simp) lowered
      all_goals simp

end Statements

/-! ## Functions and programs -/

section Programs

variable {env : Env}

theorem childOf_quiet (n : Node) (i : Nat) :
    Quiet (fun c => n.children[i]? = some c) (childOf n i) := by
  unfold childOf
  cases hchild : n.child i with
  | ok c => exact .pure (Node.child_ok_iff.mp hchild)
  | error e => exact .throw _

theorem storageName_quiet (id : Node) : Quiet (fun _ => True) (storageName env id) :=
  (ownerOf_quiet id).bind fun _ _ => .pure trivial

theorem paramNames_quiet (body : Node) (ps : List Node) :
    Quiet (fun _ => True) (paramNames env body ps) := by
  induction ps with
  | nil => exact .pure trivial
  | cons p rest ih =>
    exact (childOf_quiet p 1).bind fun _ _ => (ownerOf_quiet body).bind fun _ _ =>
      ih.bind fun _ _ => .pure trivial

/-- Lowering a function follows the text of its body. -/
theorem lowered_of_tracedFunction {place : List Nat} {d : Node} {s s' : State} {f : Wat.Func Op}
    {log : Log} (lowered : tracedFunction env place d s = .ok ((f, log), s')) :
    ∃ body, d.children[3]? = some body ∧
      Lowered [] body.whiles (body.sites [] s.labels (place ++ [3])) s f.body log s' := by
  unfold tracedFunction at lowered
  obtain ⟨body, s₁, hlabels₁, hchild, lowered⟩ := (childOf_quiet d 3).run lowered
  obtain ⟨result, s₂, hlabels₂, -, lowered⟩ := (childOf_quiet d 0).run lowered
  obtain ⟨params, s₃, hlabels₃, -, lowered⟩ := (childOf_quiet d 2).run lowered
  have hlabels : s₃.labels = s.labels := hlabels₃.trans (hlabels₂.trans hlabels₁)
  refine ⟨body, hchild, ?_⟩
  dsimp only at lowered
  -- a function has its own name, an entry point the fixed one
  split at lowered
  case' isTrue =>
    obtain ⟨name, s₄, hlabels₄, -, lowered⟩ :=
      (Quiet.pure (P := fun _ => True) trivial).run lowered
  case' isFalse =>
    obtain ⟨id, s₃', hlabels₃', -, lowered⟩ := (childOf_quiet d 1).run lowered
    obtain ⟨name, s₄, hlabels₄', -, lowered⟩ := (storageName_quiet id).run lowered
    have hlabels₄ : s₄.labels = s₃.labels := hlabels₄'.trans hlabels₃'
  all_goals
    obtain ⟨names, s₅, hlabels₅, -, lowered⟩ := (paramNames_quiet body _).run lowered
    obtain ⟨owner, s₆, hlabels₆, -, lowered⟩ := (ownerOf_quiet body).run lowered
    split at lowered
    · cases lowered
    · obtain ⟨⟨code, log'⟩, s₇, hcode, heq⟩ := step_bind_ok.mp lowered
      cases heq
      have hentry : s₆.labels = s.labels :=
        hlabels₆.trans (hlabels₅.trans (hlabels₄.trans hlabels))
      have lowered := lowered_of_tracedStatement body hcode
      rw [hentry] at lowered
      exact lowered.body hentry _

/-- The jumps in the bodies of functions, in order. -/
def funcJumps (fs : List (Wat.Func Op)) : List Jump :=
  fs.flatMap fun f => jumps [] f.body

/-- Lowering functions gave a log for the given sites, and the bodies have their jumps. -/
structure FunctionsLowered (sites : List Site) (fs : List (Wat.Func Op)) (log : Log) : Prop where
  log : log = sites.map fun site => (site.place, site.loops)
  jumps : funcJumps fs = sites.flatMap siteJumps

theorem FunctionsLowered.cons {whiles : Nat} {sites₁ sites₂ : List Site} {s s₁ : State}
    {f : Wat.Func Op} {fs : List (Wat.Func Op)} {log₁ log₂ : Log}
    (first : Lowered [] whiles sites₁ s f.body log₁ s₁) (others : FunctionsLowered sites₂ fs log₂) :
    FunctionsLowered (sites₁ ++ sites₂) (f :: fs) (log₁ ++ log₂) where
  log := by rw [first.log, others.log, List.map_append]
  jumps := by
    have hfirst : Lower.jumps [] f.body = sites₁.flatMap siteJumps := first.jumps
    rw [funcJumps, List.flatMap_cons, hfirst, List.flatMap_append, ← others.jumps, funcJumps]

theorem lowered_of_tracedDeclarations {ds : List Node} {i : Nat} {s s' : State} {parts : Parts}
    {log : Log} (lowered : tracedDeclarations env i ds s = .ok ((parts, log), s')) :
    FunctionsLowered (Node.sitesOf s.labels i ds) parts.funcs log := by
  induction ds generalizing i s parts log with
  | nil =>
    rw [tracedDeclarations] at lowered
    cases lowered
    exact ⟨rfl, rfl⟩
  | cons d rest ih =>
    -- what a function adds
    have add : (d.kind = .functionDeclaration ∨ d.kind = .entryPointDeclaration) →
        ∀ {f parts log₁ log₂ s₁}, tracedFunction env [i] d s = .ok ((f, log₁), s₁) →
          tracedDeclarations env (i + 1) rest s₁ = .ok ((parts, log₂), s') →
          FunctionsLowered (Node.sitesOf s.labels i (d :: rest)) (f :: parts.funcs)
            (log₁ ++ log₂) := by
      intro isFunction f parts log₁ log₂ s₁ hfunction hothers
      obtain ⟨body, hchild, first⟩ := lowered_of_tracedFunction hfunction
      have hbody : d.functionBody? = some body := (if_pos isFunction).trans hchild
      have others := ih hothers
      rw [first.labels] at others
      rw [Node.sitesOf, hbody]
      exact FunctionsLowered.cons first others
    have skip : ¬(d.kind = .functionDeclaration ∨ d.kind = .entryPointDeclaration) →
        Node.sitesOf s.labels i (d :: rest) = Node.sitesOf s.labels (i + 1) rest := by
      intro noFunction
      have hbody : d.functionBody? = none := if_neg noFunction
      rw [Node.sitesOf, hbody]
    rw [tracedDeclarations] at lowered
    generalize hkind : d.kind = kind at lowered
    cases kind
    case entryPointDeclaration =>
      obtain ⟨⟨f, log₁⟩, s₁, hfunction, lowered⟩ := step_bind_ok.mp lowered
      obtain ⟨⟨parts, log₂⟩, s₂, hothers, heq⟩ := step_bind_ok.mp lowered
      cases heq
      exact add (.inr hkind) hfunction hothers
    case functionDeclaration =>
      obtain ⟨⟨f, log₁⟩, s₁, hfunction, lowered⟩ := step_bind_ok.mp lowered
      obtain ⟨⟨parts, log₂⟩, s₂, hothers, heq⟩ := step_bind_ok.mp lowered
      cases heq
      exact add (.inl hkind) hfunction hothers
    case variableDeclaration =>
      obtain ⟨id, s₁, hlabels₁, -, lowered⟩ := (childOf_quiet d 1).run lowered
      obtain ⟨name, s₂, hlabels₂, -, lowered⟩ := (storageName_quiet id).run lowered
      obtain ⟨⟨parts, log₂⟩, s₃, hothers, heq⟩ := step_bind_ok.mp lowered
      cases heq
      have others := ih hothers
      rw [hlabels₂, hlabels₁] at others
      rw [skip (by simp [hkind])]
      exact others
    all_goals
      rw [skip (by simp [hkind])]
      exact ih lowered

/-- Lowering a program follows its text. -/
theorem lowered_of_tracedProgram {root : Node} {m : Wat.Module Op} {log : Log}
    (builtins : env.scopes.builtins = .builtins)
    (lowered : tracedProgram env root = .ok (m, log)) :
    ∃ fs, m.funcs = library ++ fs ∧ FunctionsLowered root.programSites fs log := by
  unfold tracedProgram at lowered
  split at lowered
  · rename_i r s hmodule
    cases lowered
    unfold tracedModule at hmodule
    obtain ⟨lib, s₁, hlibrary, hmodule⟩ := step_bind_ok.mp hmodule
    obtain ⟨⟨parts, log'⟩, s₂, hparts, hmodule⟩ := step_bind_ok.mp hmodule
    obtain ⟨s₃, s₄, -, heq⟩ := step_bind_ok.mp hmodule
    have hok : libraryFuncs env .initial = .ok (library, .library) := libraryFuncs_ok builtins _
    rw [hok] at hlibrary
    cases hlibrary
    cases heq
    exact ⟨parts.funcs, rfl, lowered_of_tracedDeclarations hparts⟩
  · cases lowered

end Programs

end TreeWat.Lower
