import TreeWat.Proofs.Lower.Simulation.Expression
set_option autoImplicit false

/-!
# Lower: statements and their code do the same

A statement runs with an empty operand stack.  A `break` is a branch out of the block
around the innermost loop, which the loop itself does not stop; a `return` leaves its
value on the stack and passes all blocks.  A loop tests its condition in front of the
machine's loop and again at its end, so that both sides repeat equally often.
-/

namespace TreeWat.Lower

open Source (Value Scene Interpreter Exit)
open Wat (Code Op Instr Machine Flow execCode)

/-- Related ends of a statement inside the loops with the given numbers. -/
inductive ExitRel (tag : Bytes) (Γ : Names) (pending : List Bytes) (result : Ty) :
    List Nat → Exit × Scene → Flow × Wat.Config → Prop where
  | next {loops σ locals store} (rel : SceneRel tag Γ pending σ locals store) :
      ExitRel tag Γ pending result loops (.next, σ) (.next, ⟨[], locals, store⟩)
  | break {num loops σ stack locals store} (rel : SceneRel tag Γ pending σ locals store) :
      ExitRel tag Γ pending result (num :: loops) (.break, σ)
        (.branch (breakLabel num), ⟨stack, locals, store⟩)
  | return {loops v ws σ locals store} (holds : Holds result v ws)
      (rel : SceneRel tag Γ pending σ locals store) :
      ExitRel tag Γ pending result loops (.return v, σ) (.ret, ⟨ws, locals, store⟩)

/-- The code pushed the truth value of the condition. -/
inductive TestRel (tag : Bytes) (Γ : Names) (pending : List Bytes) :
    Bool × Scene → Flow × Wat.Config → Prop where
  | intro {b σ locals store} (rel : SceneRel tag Γ pending σ locals store) :
      TestRel tag Γ pending (b, σ) (.next, ⟨[Word.ofBool b], locals, store⟩)

/-- Related ends of a loop inside of its block: a `break` is still on its way out. -/
inductive LoopRel (tag : Bytes) (Γ : Names) (pending : List Bytes) (result : Ty) (num : Nat) :
    Exit × Scene → Flow × Wat.Config → Prop where
  | next {σ locals store} (rel : SceneRel tag Γ pending σ locals store) :
      LoopRel tag Γ pending result num (.next, σ) (.next, ⟨[], locals, store⟩)
  | break {σ stack locals store} (rel : SceneRel tag Γ pending σ locals store) :
      LoopRel tag Γ pending result num (.next, σ)
        (.branch (breakLabel num), ⟨stack, locals, store⟩)
  | return {v ws σ locals store} (holds : Holds result v ws)
      (rel : SceneRel tag Γ pending σ locals store) :
      LoopRel tag Γ pending result num (.return v, σ) (.ret, ⟨ws, locals, store⟩)

variable {tag : Bytes} {Γ : Names} {pending : List Bytes} {σ : Scene}
  {locals : Bytes → Option Word} {store : Store Word} {I : Interpreter} {M : Machine}
  {data : List Wat.Data} {result : Ty} {loops : List Nat}

theorem match_test {cond : Node} {c : Wat.Config} {code : Code}
    (h : Run.Match (ValueRel tag Γ pending .boolean []) (Source.eval I cond σ)
      (execCode M code c)) :
    Run.Match (TestRel tag Γ pending) (Source.test I cond σ) (execCode M code c) := by
  refine h.bind_left ?_
  rintro _ _ ⟨holds, rel⟩
  cases holds with
  | boolean b => exact ⟨_, rfl, .intro rel⟩

/-- A value that nobody wants is dropped. -/
theorem match_dropValue {ty : Ty} {r : Run (Value × Scene)} {code : Code} {c : Wat.Config}
    (h : Run.Match (ValueRel tag Γ pending ty []) r (execCode M code c)) :
    Run.Match (ExitRel tag Γ pending result loops) (r >>= fun p => pure (.next, p.2))
      (execCode M (dropValue ty code) c) := by
  unfold dropValue
  cases hvalue : ty.hasValue with
  | true =>
    refine match_value h ?_
    intro v σ ws locals store holds rel
    obtain ⟨w, rfl⟩ := holds.single hvalue
    rw [List.singleton_append, Wat.exec_drop]
    exact match_next (.next rel)
  | false =>
    refine h.bind_left ?_
    rintro _ _ ⟨holds, rel⟩
    cases holds with
    | int w => cases hvalue
    | boolean b => cases hvalue
    | string raw => exact ⟨_, rfl, .next rel⟩
    | void => exact ⟨_, rfl, .next rel⟩

/-- An arm of a conditional passes on how it ended. -/
theorem match_cond_arm {r : Run (Exit × Scene)} {arm : Code} {c : Wat.Config}
    (h : Run.Match (ExitRel tag Γ pending result loops) r (execCode M arm c)) :
    Run.Match (ExitRel tag Γ pending result loops) r
      (execCode M arm c >>= Wat.leave none [] >>= Wat.afterNext (execCode M [])) := by
  rw [Wat.bind_afterNext_nil]
  refine h.bind_right ?_
  rintro _ _ (rel | rel | ⟨holds, rel⟩)
  · exact ⟨_, Wat.leave_next, .next rel⟩
  · exact ⟨_, rfl, .break rel⟩
  · exact ⟨_, rfl, .return holds rel⟩

/-- A conditional behind its test. -/
theorem match_cond {k : Bool × Scene → Run (Exit × Scene)} {r : Run (Bool × Scene)}
    {test whenTrue whenFalse : Code} {c : Wat.Config}
    (h : Run.Match (TestRel tag Γ pending) r (execCode M test c))
    (hTrue : ∀ {σ locals store}, SceneRel tag Γ pending σ locals store →
      Run.Match (ExitRel tag Γ pending result loops) (k (true, σ))
        (execCode M whenTrue ⟨[], locals, store⟩))
    (hFalse : ∀ {σ locals store}, SceneRel tag Γ pending σ locals store →
      Run.Match (ExitRel tag Γ pending result loops) (k (false, σ))
        (execCode M whenFalse ⟨[], locals, store⟩)) :
    Run.Match (ExitRel tag Γ pending result loops) (r >>= k)
      (execCode M (test ++ [.cond whenTrue whenFalse]) c) := by
  rw [Wat.execCode_append]
  refine h.bind ?_
  rintro ⟨b, σ⟩ _ ⟨rel⟩
  show Run.Match _ _ (execCode M [.cond whenTrue whenFalse] _)
  cases b with
  | true =>
    rw [Wat.exec_cond (by decide)]
    exact match_cond_arm (hTrue rel)
  | false =>
    rw [show Word.ofBool false = 0 from rfl, Wat.exec_cond_zero]
    exact match_cond_arm (hFalse rel)

/-! ## Loops -/

/-- A loop whose condition has just been found true. -/
def onceMore (condition : Scene → Run (Bool × Scene)) (body : Scene → Run (Exit × Scene)) :
    Nat → Scene → Run (Exit × Scene)
  | 0, _ => .stop .outOfFuel
  | n + 1, σ => body σ >>= Source.afterBody (Source.repeatWhile condition body n)

theorem repeatWhile_eq (condition : Scene → Run (Bool × Scene))
    (body : Scene → Run (Exit × Scene)) (n : Nat) (σ : Scene) :
    Source.repeatWhile condition body n σ = condition σ >>= fun p =>
      if p.1 then onceMore condition body n p.2 else pure (.next, p.2) := by
  cases n with
  | zero => rw [Source.repeatWhile]; rfl
  | succ n => rw [Source.repeatWhile]; rfl

theorem breakLabel_ne_loopLabel (num : Nat) : breakLabel num ≠ loopLabel num := by
  intro h
  have hsecond : (breakLabel num)[1]? = some (byte 'B') := rfl
  rw [h] at hsecond
  exact absurd hsecond (show ¬ some (byte 'L') = some (byte 'B') by decide)

/-- One more round of a loop and all that follow, by induction on the fuel. -/
theorem match_repeatLoop {condition : Scene → Run (Bool × Scene)}
    {body : Scene → Run (Exit × Scene)} {code again : Code} {num : Nat}
    (hcondition : ∀ {σ locals store}, SceneRel tag Γ pending σ locals store →
      Run.Match (TestRel tag Γ pending) (condition σ) (execCode M again ⟨[], locals, store⟩))
    (hbody : ∀ {σ locals store}, SceneRel tag Γ pending σ locals store →
      Run.Match (ExitRel tag Γ pending result (num :: loops)) (body σ)
        (execCode M code ⟨[], locals, store⟩))
    (n : Nat) {σ : Scene} {locals : Bytes → Option Word} {store : Store Word}
    (rel : SceneRel tag Γ pending σ locals store) :
    Run.Match (LoopRel tag Γ pending result num) (onceMore condition body n σ)
      (Wat.repeatLoop (loopLabel num)
        (execCode M (code ++ again ++ [.op (.brIf (loopLabel num))])) n
        ⟨[], locals, store⟩) := by
  rw [List.append_assoc]
  induction n generalizing σ locals store with
  | zero => exact .stopped rfl
  | succ n ih =>
    rw [onceMore, Wat.repeatLoop, Wat.execCode_append, Run.bind_bind]
    refine (hbody rel).bind ?_
    rintro _ _ (rel₁ | rel₁ | ⟨holds, rel₁⟩)
    · -- the body ended, and the condition is tested again
      rw [Wat.afterNext_next, Source.afterBody, repeatWhile_eq, Wat.execCode_append, Run.bind_bind]
      refine (hcondition rel₁).bind ?_
      rintro ⟨b, σ₂⟩ _ ⟨rel₂⟩
      rw [Wat.afterNext_next]
      cases b with
      | true =>
        rw [Wat.exec_brIf (by decide), Run.done_bind]
        simp only [if_true]
        exact ih rel₂
      | false =>
        rw [show Word.ofBool false = 0 from rfl, Wat.exec_brIf_zero, Wat.execCode_nil,
          Run.done_bind]
        simp only [Wat.leave_next]
        exact .pure (.next rel₂)
    · simp only [Wat.afterNext, Run.done_bind, if_neg (breakLabel_ne_loopLabel num)]
      exact .pure (.break rel₁)
    · exact .pure (.return holds rel₁)

/-- The block around a loop stops the branch of a `break`. -/
theorem LoopRel.leave {num : Nat} {p : Exit × Scene} {q : Flow × Wat.Config}
    (h : LoopRel tag Γ pending result num p q) :
    ∃ q', Wat.leave (some (breakLabel num)) [] q = pure q' ∧
      ExitRel tag Γ pending result loops p q' := by
  cases h with
  | next rel => exact ⟨_, Wat.leave_next, .next rel⟩
  | «break» rel => exact ⟨_, Wat.leave_branch, .next rel⟩
  | «return» holds rel => exact ⟨_, rfl, .return holds rel⟩

/-- A loop and its code do the same. -/
theorem match_whileLoop {condition : Scene → Run (Bool × Scene)}
    {body : Scene → Run (Exit × Scene)} {test code again : Code} {num : Nat}
    (htest : ∀ {σ locals store}, SceneRel tag Γ pending σ locals store →
      Run.Match (TestRel tag Γ pending) (condition σ) (execCode M test ⟨[], locals, store⟩))
    (hbody : ∀ {σ locals store}, SceneRel tag Γ pending σ locals store →
      Run.Match (ExitRel tag Γ pending result (num :: loops)) (body σ)
        (execCode M code ⟨[], locals, store⟩))
    (hagain : ∀ {σ locals store}, SceneRel tag Γ pending σ locals store →
      Run.Match (TestRel tag Γ pending) (condition σ) (execCode M again ⟨[], locals, store⟩))
    (rel : SceneRel tag Γ pending σ locals store) :
    Run.Match (ExitRel tag Γ pending result loops)
      (Source.repeatWhile condition body M.fuel σ)
      (execCode M [whileLoop num test code again] ⟨[], locals, store⟩) := by
  unfold whileLoop
  rw [Wat.exec_block, Wat.bind_afterNext_nil, repeatWhile_eq]
  have hinside : Run.Match (LoopRel tag Γ pending result num)
      (condition σ >>= fun p =>
        if p.1 then onceMore condition body M.fuel p.2 else pure (.next, p.2))
      (execCode M (test ++ [.op .eqz, .op (.brIf (breakLabel num)),
        .loop (loopLabel num) (code ++ again ++ [.op (.brIf (loopLabel num))])])
        ⟨[], locals, store⟩) := by
    rw [Wat.execCode_append]
    refine (htest rel).bind ?_
    rintro ⟨b, σ₁⟩ _ ⟨rel₁⟩
    rw [Wat.afterNext_next, Wat.exec_eqz]
    cases b with
    | true =>
      rw [show Word.ofBool (Word.ofBool true == 0) = 0 from rfl, Wat.exec_brIf_zero, Wat.exec_loop,
        Wat.bind_afterNext_nil]
      exact match_repeatLoop hagain hbody M.fuel rel₁
    | false =>
      rw [Wat.exec_brIf (by decide)]
      exact .pure (.break rel₁)
  exact hinside.bind_right fun _ _ h => h.leave

/-! ## Statements -/

mutual

/-- A statement and its code do the same. -/
theorem StmtCode.simulates (linked : Linked Γ.globals Γ.funcs data I M) {loops : List Nat}
    {n : Node} {s s' : State} {code : Code} (h : StmtCode tag Γ result loops n s code s')
    (hdata : s'.literals.data ⊆ data) {σ : Scene} {locals : Bytes → Option Word}
    {store : Store Word} (rel : SceneRel tag Γ pending σ locals store) :
    Run.Match (ExitRel tag Γ pending result loops) (Source.exec I n σ)
      (execCode M code ⟨[], locals, store⟩) := by
  cases h with
  | block statements =>
    rw [Source.exec]
    exact statements.simulates linked hdata rel
  | expression value commented =>
    rw [Source.exec]
    refine match_dropValue ?_
    rw [commented.exec]
    exact value.simulates linked hdata rel []
  | call isCall value =>
    rcases n with ⟨kind, attr, loc, note, children⟩
    cases isCall
    rw [Source.exec]
    exact match_dropValue (value.simulates linked hdata rel [])
  | null =>
    rw [Source.exec]
    exact match_next (.next rel)
  | ifThen condition commented whenTrue =>
    rw [Source.exec]
    refine match_cond ?_ ?_ ?_
    · rw [commented.exec]
      exact match_test
        (condition.simulates linked (fun _ hd => hdata (whenTrue.data_subset hd)) rel [])
    · intro σ₁ locals₁ store₁ rel₁
      exact whenTrue.simulates linked hdata rel₁
    · intro σ₁ locals₁ store₁ rel₁
      exact match_next (.next rel₁)
  | ifElse condition commented whenTrue whenFalse =>
    have hfirst := fun d hd => hdata (whenFalse.data_subset (a := d) hd)
    rw [Source.exec]
    refine match_cond ?_ ?_ ?_
    · rw [commented.exec]
      exact match_test
        (condition.simulates linked (fun _ hd => hfirst _ (whenTrue.data_subset hd)) rel [])
    · intro σ₁ locals₁ store₁ rel₁
      exact whenTrue.simulates linked hfirst rel₁
    · intro σ₁ locals₁ store₁ rel₁
      exact whenFalse.simulates linked hdata rel₁
  | «while» condition commented repeated conditionAgain commentedAgain =>
    have hbody := fun d hd => hdata (conditionAgain.data_subset (a := d) hd)
    rw [Source.exec, ← linked.fuel]
    refine match_whileLoop ?_ ?_ ?_ rel
    · intro σ₁ locals₁ store₁ rel₁
      rw [commented.exec]
      exact match_test
        (condition.simulates linked (fun _ hd => hbody _ (repeated.data_subset hd)) rel₁ [])
    · intro σ₁ locals₁ store₁ rel₁
      exact repeated.simulates linked hbody rel₁
    · intro σ₁ locals₁ store₁ rel₁
      rw [commentedAgain.exec]
      exact match_test (conditionAgain.simulates linked hdata rel₁ [])
  | returnNothing isVoid =>
    subst isVoid
    rw [Source.exec, Wat.exec_ret]
    exact .pure (.return .void rel)
  | returnValue hasResult valueCode commented =>
    rw [Source.exec]
    rw [Wat.execCode_append, commented.exec]
    refine (valueCode.simulates linked hdata rel []).bind ?_
    rintro _ _ ⟨holds, rel₁⟩
    rw [Wat.afterNext_next, Wat.exec_ret, List.append_nil]
    exact .pure (.return holds rel₁)
  | «break» =>
    rw [Source.exec, Wat.exec_br]
    exact .pure (.break rel)

/-- Statements and their code do the same. -/
theorem StmtsCode.simulates (linked : Linked Γ.globals Γ.funcs data I M) {loops : List Nat}
    {ss : List Node} {s s' : State} {code : Code} (h : StmtsCode tag Γ result loops ss s code s')
    (hdata : s'.literals.data ⊆ data) {σ : Scene} {locals : Bytes → Option Word}
    {store : Store Word} (rel : SceneRel tag Γ pending σ locals store) :
    Run.Match (ExitRel tag Γ pending result loops) (Source.execAll I ss σ)
      (execCode M code ⟨[], locals, store⟩) := by
  cases h with
  | nil =>
    rw [Source.execAll]
    exact match_next (.next rel)
  | cons first others =>
    rw [Source.execAll, Wat.execCode_append]
    refine (first.simulates linked (fun _ hd => hdata (others.data_subset hd)) rel).bind ?_
    rintro _ _ (rel₁ | rel₁ | ⟨holds, rel₁⟩)
    · exact others.simulates linked hdata rel₁
    · exact .pure (.break rel₁)
    · exact .pure (.return holds rel₁)

end

end TreeWat.Lower
