import TreeWat.Check.Program
import TreeWat.Proofs.Tree
set_option autoImplicit false

/-!
# Check: what a check leaves alone

Scopes are opened and closed around nested bodies, and a check can end early at any place
between.  `Frame` says what is the same behind a check as in front of it, and the lemmas of
this module say so of every check, however it ends: the scopes that were open are open again
in the same order (`frame_checkFunction`, `frame_checkBodies`), and none that was there has
changed.  The one exception is a variable declaration, which adds to the innermost scope
(`within_checkStatementIn`, `frame_checkStatementIn`).

A check that opens a scope closes it by taking the innermost scope off the stack.  That this
is the scope it opened is what `Within.pop` says, and so the check goes back to the scopes
that were open in front of it (`Within.leave_eq`).
-/

namespace TreeWat.Check

/-- The context with the scopes open that are open in `outer`. -/
def Context.leaveTo (c outer : Context) : Context :=
  { c with stack := outer.stack }

/-! ## Frames -/

/-- The check from `c` to `c'` left the open scopes, the program-wide scopes and the
first `k` of the opened scopes alone, and took no scope or tag back. -/
structure Frame (k : Nat) (c c' : Context) : Prop where
  stack : c'.stack = c.stack
  builtins : c'.scopes.builtins = c.scopes.builtins
  globals : c'.scopes.globals = c.scopes.globals
  opened : ∀ i < k, c'.scopes.opened[i]? = c.scopes.opened[i]?
  length : c.scopes.opened.length ≤ c'.scopes.opened.length
  tags : c.tags ≤ c'.tags

namespace Frame

theorem refl (k : Nat) (c : Context) : Frame k c c :=
  ⟨rfl, rfl, rfl, fun _ _ => rfl, Nat.le_refl _, Nat.le_refl _⟩

theorem trans {k : Nat} {c₁ c₂ c₃ : Context} (h₁ : Frame k c₁ c₂) (h₂ : Frame k c₂ c₃) :
    Frame k c₁ c₃ where
  stack := h₂.stack.trans h₁.stack
  builtins := h₂.builtins.trans h₁.builtins
  globals := h₂.globals.trans h₁.globals
  opened i hi := (h₂.opened i hi).trans (h₁.opened i hi)
  length := Nat.le_trans h₁.length h₂.length
  tags := Nat.le_trans h₁.tags h₂.tags

theorem mono {j k : Nat} {c c' : Context} (hjk : j ≤ k) (h : Frame k c c') : Frame j c c' :=
  { h with opened := fun i hi => h.opened i (Nat.lt_of_lt_of_le hi hjk) }

theorem get {k i : Nat} {c c' : Context} (h : Frame k c c') (hi : i < k) :
    c'.scopes.get (.opened i) = c.scopes.get (.opened i) := by
  simp [Scopes.get, List.getD, h.opened i hi]

theorem enter_length (c : Context) (make : Bytes → Scope) :
    (c.enter make).1.scopes.opened.length = c.scopes.opened.length + 1 := by
  simp [Context.enter, Context.push, Scopes.add]

end Frame

/-- One check behind another leaves alone what was there in front of both. -/
theorem Frame.andThen {c₁ c₂ c₃ : Context} (h₁ : Frame c₁.scopes.opened.length c₁ c₂)
    (h₂ : Frame c₂.scopes.opened.length c₂ c₃) : Frame c₁.scopes.opened.length c₁ c₃ :=
  h₁.trans (h₂.mono h₁.length)

/-! ## The innermost scope -/

/-- The check from `c` to `c'` left everything but the innermost scope alone, and took no
scope or tag back. -/
structure Within (c c' : Context) : Prop where
  stack : c'.stack = c.stack
  builtins : c.top? ≠ some .builtins → c'.scopes.builtins = c.scopes.builtins
  globals : c.top? ≠ some .globals → c'.scopes.globals = c.scopes.globals
  opened : ∀ i < c.scopes.opened.length, c.top? ≠ some (.opened i) →
    c'.scopes.opened[i]? = c.scopes.opened[i]?
  length : c.scopes.opened.length ≤ c'.scopes.opened.length
  tags : c.tags ≤ c'.tags

theorem Frame.within {c c' : Context} (h : Frame c.scopes.opened.length c c') : Within c c' where
  stack := h.stack
  builtins _ := h.builtins
  globals _ := h.globals
  opened i hi _ := h.opened i hi
  length := h.length
  tags := h.tags

namespace Within

theorem refl (c : Context) : Within c c :=
  (Frame.refl _ c).within

theorem top {c c' : Context} (h : Within c c') : c'.top? = c.top? :=
  congrArg List.head? h.stack

theorem trans {c₁ c₂ c₃ : Context} (h₁ : Within c₁ c₂) (h₂ : Within c₂ c₃) : Within c₁ c₃ where
  stack := h₂.stack.trans h₁.stack
  builtins hne := (h₂.builtins (h₁.top ▸ hne)).trans (h₁.builtins hne)
  globals hne := (h₂.globals (h₁.top ▸ hne)).trans (h₁.globals hne)
  opened i hi hne :=
    (h₂.opened i (Nat.lt_of_lt_of_le hi h₁.length) (h₁.top ▸ hne)).trans (h₁.opened i hi hne)
  length := Nat.le_trans h₁.length h₂.length
  tags := Nat.le_trans h₁.tags h₂.tags

/-- Declaring a variable in the innermost scope. -/
theorem declare {c c' : Context} {id : ScopeId} {name : Bytes} {ty : Ty} {loc : Location}
    (isTop : c.top? = some id) (declared : c.declare id name ty loc = .ok c') : Within c c' := by
  unfold Context.declare at declared
  split at declared
  · cases declared
  · cases declared
    refine ⟨rfl, fun hne => ?_, fun hne => ?_, fun i _ hne => ?_, ?_, Nat.le_refl _⟩
    all_goals rw [isTop] at *; cases id <;> simp_all [Scopes.set]

/-- What is closed at the end of a body is the scope that was opened for it. -/
theorem pop {c c' : Context} {make : Bytes → Scope} (h : Within (c.enter make).1 c') :
    c'.pop = .ok (c'.leave, (c.enter make).2) := by
  have hstack : c'.stack = (c.enter make).2 :: c.stack := h.stack
  simp [Context.pop, Context.leave, hstack]

/-- A body that is checked in a scope of its own ends with the scopes open that were open in
front of it. -/
theorem leave_eq {c c' : Context} {make : Bytes → Scope} (h : Within (c.enter make).1 c') :
    c'.leave = c'.leaveTo c := by
  have hstack : c'.stack = (c.enter make).2 :: c.stack := h.stack
  simp [Context.leave, Context.leaveTo, hstack]

/-- A body that is checked in a scope of its own leaves everything in front of it alone. -/
theorem leave {c c' : Context} {make : Bytes → Scope} (h : Within (c.enter make).1 c') :
    Frame c.scopes.opened.length c c'.leave where
  stack := congrArg List.tail h.stack
  builtins := h.builtins (by simp [Context.top?, Context.enter, Context.push, Scopes.add])
  globals := h.globals (by simp [Context.top?, Context.enter, Context.push, Scopes.add])
  opened i hi := by
    have hlength := Frame.enter_length c make
    have hopened := h.opened i (by omega) ?_
    · simpa [Context.leave, Context.enter, Context.push, Scopes.add,
        List.getElem?_append_left hi] using hopened
    · simpa [Context.top?, Context.enter, Context.push, Scopes.add] using Nat.ne_of_gt hi
  length := by
    have hlength := h.length
    rw [Frame.enter_length] at hlength
    exact Nat.le_of_succ_le hlength
  tags := Nat.le_of_succ_le h.tags

end Within

/-! ## Statements -/

theorem within_checkVariable (c : Context) (n : Node) : Within c (checkVariable c n).2.2 := by
  unfold checkVariable
  split
  · exact .refl c
  · split
    · exact .refl c
    · rename_i top isTop
      split
      · exact .refl c
      · split
        · exact .refl c
        · rename_i c' declared
          have hwithin : Within c c' := .declare isTop declared
          split
          · exact hwithin
          · exact hwithin

theorem within_checkStatements {ss : List Node}
    (each : ∀ s ∈ ss, ∀ c, Within c (checkStatementIn none c s).2.2) (c : Context) :
    Within c (checkStatements c ss).2.2 := by
  induction ss generalizing c with
  | nil => exact .refl c
  | cons s rest ih =>
    rw [checkStatements]
    have first := each s List.mem_cons_self c
    split
    · rename_i hs
      rw [hs] at first
      exact first
    · rename_i s' c₁ hs
      rw [hs] at first
      exact first.trans (ih (fun t ht => each t (List.mem_cons_of_mem _ ht)) c₁)

/-- An arm of a conditional or the body of a loop, in the scope opened for it. -/
theorem frame_arm {arm : Node} (each : ∀ own c, Within c (checkStatementIn own c arm).2.2)
    (c : Context) (make : Bytes → Scope) :
    Frame c.scopes.opened.length c
      (checkStatementIn (some (c.enter make).2) (c.enter make).1 arm).2.2.leave :=
  (each _ _).leave

/-- Only a declaration changes a scope that was open before it, and only the innermost one. A
block in the scope `own` can hold such declarations. -/
theorem within_and_frame_checkStatementIn (n : Node) : ∀ own c,
    Within c (checkStatementIn own c n).2.2 ∧
      (own = none → n.kind ≠ .variableDeclaration →
        Frame c.scopes.opened.length c (checkStatementIn own c n).2.2) := by
  induction n using Node.induction with
  | step n ih =>
    intro own c
    rcases n with ⟨kind, attr, loc, note, children⟩
    have each : ∀ m ∈ children, ∀ own c, Within c (checkStatementIn own c m).2.2 :=
      fun m hm own c => (ih m (Node.mem_descendants_of_child hm) own c).1
    -- all but declarations and blocks in the scope of another statement
    have ofFrame : Frame c.scopes.opened.length c
          (checkStatementIn own c ⟨kind, attr, loc, note, children⟩).2.2 →
        Within c (checkStatementIn own c ⟨kind, attr, loc, note, children⟩).2.2 ∧
          (own = none → kind ≠ .variableDeclaration → Frame c.scopes.opened.length c
            (checkStatementIn own c ⟨kind, attr, loc, note, children⟩).2.2) :=
      fun frame => ⟨frame.within, fun _ _ => frame⟩
    cases kind
    case block =>
      have hall := within_checkStatements fun s hs => each s hs none
      cases own with
      | some id =>
        refine ⟨?_, fun h => by cases h⟩
        rw [checkStatementIn]
        dsimp only [Context.leaveBlock]
        split
        · exact .refl c
        · exact hall c
      | none =>
        refine ofFrame ?_
        rw [checkStatementIn]
        dsimp only [Context.leaveBlock]
        split
        · exact (Within.refl _).leave
        · exact (hall _).leave
    case variableDeclaration =>
      refine ⟨?_, fun _ hne => absurd rfl hne⟩
      rw [checkStatementIn]
      exact within_checkVariable c _
    case ifThen =>
      refine ofFrame ?_
      rw [checkStatementIn.eq_def]
      dsimp only
      split
      · split
        · exact .refl _ c
        · exact frame_arm (each _ (by simp)) c _
      · exact .refl _ c
    case ifElse =>
      refine ofFrame ?_
      rw [checkStatementIn.eq_def]
      dsimp only
      split
      · rename_i cond arm₁ arm₂
        split
        · exact .refl _ c
        · have first := frame_arm (each arm₁ (by simp)) c fun tag => .empty .block tag arm₁.loc
          split
          · rename_i harm
            rw [harm] at first
            exact first
          · rename_i arm₁' c₁ harm
            rw [harm] at first
            exact first.andThen (frame_arm (each arm₂ (by simp)) c₁.leave _)
      · exact .refl _ c
    case «while» =>
      refine ofFrame ?_
      rw [checkStatementIn.eq_def]
      dsimp only
      split
      · split
        · exact .refl _ c
        · exact frame_arm (each _ (by simp)) c _
      · exact .refl _ c
    all_goals
      refine ofFrame ?_
      rw [checkStatementIn.eq_def]
      dsimp only
      repeat' split
      all_goals exact .refl _ c

theorem within_checkStatementIn (own : Option ScopeId) (c : Context) (n : Node) :
    Within c (checkStatementIn own c n).2.2 :=
  (within_and_frame_checkStatementIn n own c).1

/-- A statement that declares nothing in the scopes around it leaves them alone. -/
theorem frame_checkStatementIn {n : Node} (other : n.kind ≠ .variableDeclaration) (c : Context) :
    Frame c.scopes.opened.length c (checkStatementIn none c n).2.2 :=
  (within_and_frame_checkStatementIn n none c).2 rfl other

/-- The open scopes are the same behind a statement, accepted or not. -/
theorem stack_checkStatementIn (own : Option ScopeId) (c : Context) (n : Node) :
    (checkStatementIn own c n).2.2.stack = c.stack :=
  (within_checkStatementIn own c n).stack

theorem within_checkStatements_all (c : Context) (ss : List Node) :
    Within c (checkStatements c ss).2.2 :=
  within_checkStatements (fun s _ c => within_checkStatementIn none c s) c

/-! ## Functions -/

theorem within_checkParameter {fn : ScopeId} {c : Context} (isTop : c.top? = some fn) (p : Node) :
    Within c (checkParameter fn c p).2.2 := by
  unfold checkParameter
  split
  · exact .refl c
  · split
    · exact .refl c
    · split
      · exact .refl c
      · rename_i c' declared
        have hwithin : Within c c' := .declare isTop declared
        split
        · exact hwithin
        · exact hwithin

theorem within_checkParameters {fn : ScopeId} {c : Context} (isTop : c.top? = some fn)
    (ps : List Node) : Within c (checkParameters fn c ps).2.2 := by
  induction ps generalizing c with
  | nil => exact .refl c
  | cons p rest ih =>
    rw [checkParameters]
    have first := within_checkParameter isTop p
    split
    · rename_i hp
      rw [hp] at first
      exact first
    · rename_i p' c₁ hp
      rw [hp] at first
      exact first.trans (ih (first.top.trans isTop))

theorem within_checkFunctionBody (fn : ScopeId) (c : Context) (body : Node) :
    Within c (checkFunctionBody fn c body).2.2 := by
  unfold checkFunctionBody
  split
  · exact .refl c
  · exact within_checkStatements_all c body.children

/-- A function leaves everything in front of it alone, accepted or not. -/
theorem frame_checkFunction (c : Context) (fn : Node) :
    Frame c.scopes.opened.length c (checkFunction c fn).2.2 := by
  unfold checkFunction
  split
  · rename_i resultNode name params body _
    split
    · exact .refl _ c
    · split
      · exact .refl _ c
      · rename_i result _
        dsimp only
        split
        · exact (Within.refl _).leave
        · have hparams : Within (c.enter fun tag => .function tag fn.loc result).1
              (checkParameters (c.enter fun tag => .function tag fn.loc result).2
                (c.enter fun tag => .function tag fn.loc result).1 params.children).2.2 :=
            within_checkParameters rfl params.children
          split
          · rename_i hps
            rw [hps] at hparams
            exact hparams.leave
          · rename_i ps' c' hps
            rw [hps] at hparams
            exact (hparams.trans (within_checkFunctionBody _ c' body)).leave
  · exact .refl _ c

theorem frame_checkBodiesOf (c : Context) (ds : List Node) :
    Frame c.scopes.opened.length c (checkBodiesOf c ds).2.2 := by
  induction ds generalizing c with
  | nil => exact .refl _ c
  | cons d rest ih =>
    rw [checkBodiesOf]
    split
    · have first := frame_checkFunction c d
      split
      · rename_i hd
        rw [hd] at first
        exact first
      · rename_i d' c₁ hd
        rw [hd] at first
        exact first.andThen (ih c₁)
    · exact ih c

theorem frame_checkBodies (c : Context) (root : Node) :
    Frame c.scopes.opened.length c (checkBodies c root).2.2 :=
  frame_checkBodiesOf c root.children

end TreeWat.Check
