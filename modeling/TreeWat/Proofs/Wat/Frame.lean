import TreeWat.Proofs.Wat.Machine
set_option autoImplicit false

/-!
# Wat: what code leaves alone, and what it does not depend on

A local that code never sets keeps its value.  And code does not depend on the local that
it uses as a scratch place, as long as it only reads what it has put there: started with
two values in it, it writes the same, stops for the same reasons, and ends in states that
differ in this local at most.
-/

namespace TreeWat.Run

variable {α β γ δ : Type}

/-- The two runs write the same and end alike: with related values, or at the same stop. -/
inductive Alike (R : α → β → Prop) : Run α → Run β → Prop where
  | ok {out a b} (related : R a b) : Alike R ⟨out, .ok a⟩ ⟨out, .ok b⟩
  | stop {out e} : Alike R ⟨out, .error e⟩ ⟨out, .error e⟩

namespace Alike

theorem pure {R : α → β → Prop} {a : α} {b : β} (related : R a b) :
    Alike R (pure a) (pure b) :=
  .ok related

theorem stopped {R : α → β → Prop} (e : Stop) : Alike R (Run.stop e) (Run.stop e) :=
  .stop

theorem refl {R : α → α → Prop} (same : ∀ a, R a a) (r : Run α) : Alike R r r := by
  rcases r with ⟨out, e | a⟩
  · exact .stop
  · exact .ok (same a)

theorem bind {R : α → β → Prop} {S : γ → δ → Prop} {r : Run α} {r' : Run β}
    {k : α → Run γ} {k' : β → Run δ} (h : Alike R r r')
    (hk : ∀ a b, R a b → Alike S (k a) (k' b)) : Alike S (r >>= k) (r' >>= k') := by
  cases h with
  | stop => exact .stop
  | @ok out a b related =>
    have hnext := hk a b related
    rw [ok_bind, ok_bind]
    rcases hka : k a with ⟨out₁, res₁⟩
    rcases hkb : k' b with ⟨out₂, res₂⟩
    rw [hka, hkb] at hnext
    cases hnext with
    | ok related => exact .ok related
    | stop => exact .stop

end Alike

/-- What holds of the second run's value besides. -/
theorem Match.and_right {R : α → β → Prop} {P : β → Prop} {r : Run α} {r' : Run β}
    (h : Match R r r') (hP : ∀ b, r'.res = .ok b → P b) : Match (fun a b => R a b ∧ P b) r r' := by
  cases h with
  | ok related => exact .ok ⟨related, hP _ rfl⟩
  | stop expected => exact .stop expected

end TreeWat.Run

namespace TreeWat.Wat

variable {M : Machine} {x : Bytes}

/-! ## Locals that code sets -/

/-- The instruction sets the local. -/
def Op.sets (x : Bytes) : Op → Bool
  | .localSet name => name == x
  | _ => false

mutual

/-- Some instruction in the element of a body sets the local. -/
def Instr.sets (x : Bytes) : Instr Op → Bool
  | .op o => o.sets x
  | .comment _ => false
  | .block _ body => codeSets x body
  | .loop _ body => codeSets x body
  | .cond whenTrue whenFalse => codeSets x whenTrue || codeSets x whenFalse

/-- Some instruction in the code sets the local. -/
def codeSets (x : Bytes) : List (Instr Op) → Bool
  | [] => false
  | i :: rest => i.sets x || codeSets x rest

end

theorem codeSets_append (code₁ code₂ : Code) :
    codeSets x (code₁ ++ code₂) = (codeSets x code₁ || codeSets x code₂) := by
  induction code₁ with
  | nil => simp [codeSets]
  | cons i rest ih => simp [codeSets, ih, Bool.or_assoc]

theorem pushOr_locals {c : Config} {stack : List Word} {e : Stop} {w : Option Word}
    {p : Flow × Config} (h : (c.pushOr stack e w).res = .ok p) : p.2.locals = c.locals := by
  cases w with
  | none => cases h
  | some w =>
    cases h
    rfl

theorem Config.call_locals {c : Config} {f : Callable} {p : Flow × Config}
    (h : (c.call f).res = .ok p) : p.2.locals = c.locals := by
  unfold Config.call at h
  split at h
  · cases h
  · obtain ⟨q, -, hq⟩ := Run.bind_res_eq_ok.mp h
    cases hq
    rfl

/-- An instruction that does not set the local leaves it alone. -/
theorem Op.exec_keeps {o : Op} (other : o.sets x = false) {c : Config} {p : Flow × Config}
    (h : (o.exec M c).res = .ok p) : p.2.locals x = c.locals x := by
  rcases c with ⟨stack, locals, store⟩
  cases o with
  | const literal => rw [pushOr_locals h]
  | localGet name => rw [pushOr_locals h]
  | globalGet name => rw [pushOr_locals h]
  | call name =>
    change (M.call name _).res = _ at h
    unfold Machine.call at h
    split at h
    · rw [Config.call_locals h]
    · cases h
  | localSet name =>
    have hname : x ≠ name := by
      rintro rfl
      simp [Op.sets] at other
    simp only [Op.exec] at h
    split at h
    · cases h
      exact assign_of_ne hname
    · cases h
  | globalSet name =>
    simp only [Op.exec] at h
    split at h
    · cases h
      rfl
    · cases h
  | arith a =>
    simp only [Op.exec] at h
    split at h
    · rw [pushOr_locals h]
    · cases h
  | load8 =>
    simp only [Op.exec] at h
    split at h
    · rw [pushOr_locals h]
    · cases h
  | unreachable => cases h
  | br label | ret =>
    cases h
    rfl
  | brIf label | eqz | drop =>
    cases stack with
    | nil => cases h
    | cons w rest =>
      cases h
      rfl

theorem leave_locals {label : Option Bytes} {stack : List Word} {p q : Flow × Config}
    (h : (leave label stack p).res = .ok q) : q.2.locals = p.2.locals := by
  rcases p with ⟨_ | l | _, c⟩
  · change (if c.stack = [] then c.goOn stack else Run.stop Stop.wrong).res = _ at h
    split at h
    · cases h
      rfl
    · cases h
  · change (if label = some l then c.goOn stack else pure (Flow.branch l, c)).res = _ at h
    split at h
    · cases h
      rfl
    · cases h
      rfl
  · cases h
    rfl

theorem repeatLoop_keeps {label : Bytes} {body : Config → Run (Flow × Config)}
    (hbody : ∀ {c p}, (body c).res = .ok p → p.2.locals x = c.locals x) {n : Nat} {c : Config}
    {p : Flow × Config} (h : (repeatLoop label body n c).res = .ok p) :
    p.2.locals x = c.locals x := by
  induction n generalizing c with
  | zero => cases h
  | succ n ih =>
    obtain ⟨q, hq, hrest⟩ := Run.bind_res_eq_ok.mp h
    have hround : q.2.locals x = c.locals x := (hbody hq :)
    rcases q with ⟨_ | l | _, c'⟩
    · rw [leave_locals hrest, hround]
    · by_cases hl : l = label
      · simp only [hl, if_true] at hrest
        rw [ih hrest]
        exact hround
      · simp only [hl, if_false] at hrest
        cases hrest
        exact hround
    · rw [leave_locals hrest, hround]

mutual

theorem Instr.exec_keeps {i : Instr Op} (other : i.sets x = false) {c : Config}
    {p : Flow × Config} (h : (i.exec M c).res = .ok p) : p.2.locals x = c.locals x := by
  cases i with
  | op o =>
    rw [Instr.exec] at h
    exact Op.exec_keeps other h
  | comment text =>
    rw [Instr.exec] at h
    cases h
    rfl
  | block label body =>
    rw [Instr.exec] at h
    obtain ⟨q, hq, hleave⟩ := Run.bind_res_eq_ok.mp h
    rw [leave_locals hleave]
    exact (execCode_keeps other hq :)
  | loop label body =>
    rw [Instr.exec] at h
    exact repeatLoop_keeps (fun hq => execCode_keeps other hq) h
  | cond whenTrue whenFalse =>
    simp only [Instr.sets, Bool.or_eq_false_iff] at other
    rw [Instr.exec] at h
    rcases c with ⟨_ | ⟨w, stack⟩, locals, store⟩
    · cases h
    · obtain ⟨q, hq, hleave⟩ := Run.bind_res_eq_ok.mp h
      rw [leave_locals hleave]
      by_cases hw : w = 0
      · rw [if_pos hw] at hq
        exact (execCode_keeps other.2 hq :)
      · rw [if_neg hw] at hq
        exact (execCode_keeps other.1 hq :)

/-- A local that code never sets keeps its value. -/
theorem execCode_keeps {code : Code} (other : codeSets x code = false) {c : Config}
    {p : Flow × Config} (h : (execCode M code c).res = .ok p) : p.2.locals x = c.locals x := by
  cases code with
  | nil =>
    rw [execCode] at h
    cases h
    rfl
  | cons i rest =>
    simp only [codeSets, Bool.or_eq_false_iff] at other
    rw [execCode] at h
    obtain ⟨⟨flow, c'⟩, hq, hrest⟩ := Run.bind_res_eq_ok.mp h
    have hfirst : c'.locals x = c.locals x := Instr.exec_keeps other.1 hq
    cases flow with
    | next => rw [execCode_keeps other.2 hrest, hfirst]
    | branch l =>
      cases hrest
      exact hfirst
    | ret =>
      cases hrest
      exact hfirst

end

/-! ## A scratch local -/

/-- The two states differ at most in the local, which both have. -/
structure Agree (x : Bytes) (c c' : Config) : Prop where
  stack : c.stack = c'.stack
  store : c.store = c'.store
  others : ∀ y, y ≠ x → c.locals y = c'.locals y
  left : (c.locals x).isSome
  right : (c'.locals x).isSome

/-- The two ends are reached in the same way, and differ at most in the local. -/
def AgreeEnd (x : Bytes) (p q : Flow × Config) : Prop :=
  p.1 = q.1 ∧ Agree x p.2 q.2

/-- Ends that agree, and are the same where control goes on. -/
def SettledEnd (x : Bytes) (p q : Flow × Config) : Prop :=
  AgreeEnd x p q ∧ (p.1 = .next → p = q)

/-- Code that does not depend on the value of the local. -/
def Ignores (M : Machine) (x : Bytes) (code : Code) : Prop :=
  ∀ c c', Agree x c c' → Run.Alike (AgreeEnd x) (execCode M code c) (execCode M code c')

/-- Code that sets the local, and does not depend on its value before. -/
def Settles (M : Machine) (x : Bytes) (code : Code) : Prop :=
  ∀ c c', Agree x c c' → Run.Alike (SettledEnd x) (execCode M code c) (execCode M code c')

namespace Agree

variable {c c' : Config}

theorem refl (h : (c.locals x).isSome) : Agree x c c :=
  ⟨rfl, rfl, fun _ _ => rfl, h, h⟩

theorem withStack (h : Agree x c c') (stack : List Word) :
    Agree x { c with stack } { c' with stack } :=
  ⟨rfl, h.store, h.others, h.left, h.right⟩

theorem goOn (h : Agree x c c') (stack : List Word) :
    Run.Alike (AgreeEnd x) (c.goOn stack) (c'.goOn stack) :=
  .pure ⟨rfl, h.withStack stack⟩

theorem pushOr (h : Agree x c c') (stack : List Word) (e : Stop) (w : Option Word) :
    Run.Alike (AgreeEnd x) (c.pushOr stack e w) (c'.pushOr stack e w) := by
  cases w with
  | none => exact .stopped e
  | some w => exact h.goOn _

/-- Set to a value, the local does not tell the states apart any more. -/
theorem assign_eq (h : Agree x c c') (w : Word) : assign c.locals x w = assign c'.locals x w := by
  funext y
  by_cases hy : y = x
  · subst hy
    rw [assign_self, assign_self]
  · rw [assign_of_ne hy, assign_of_ne hy, h.others y hy]

theorem withLocal (h : Agree x c c') {y : Bytes} (other : y ≠ x) (stack : List Word) (w : Word) :
    Agree x { c with stack, locals := assign c.locals y w }
      { c' with stack, locals := assign c'.locals y w } where
  stack := rfl
  store := h.store
  others z hz := by
    by_cases hy : z = y
    · subst hy
      exact (assign_self _ _ _).trans (assign_self _ _ _).symm
    · exact (assign_of_ne hy).trans ((h.others z hz).trans (assign_of_ne hy).symm)
  left := by
    show (assign c.locals y w x).isSome
    rw [assign_of_ne other.symm]
    exact h.left
  right := by
    show (assign c'.locals y w x).isSome
    rw [assign_of_ne other.symm]
    exact h.right

theorem call (h : Agree x c c') (f : Callable) :
    Run.Alike (AgreeEnd x) (c.call f) (c'.call f) := by
  unfold Config.call
  rw [h.stack, h.store]
  split
  · exact .stopped _
  · refine (Run.Alike.refl (R := Eq) (fun _ => rfl) _).bind ?_
    rintro ⟨result, store⟩ _ rfl
    exact .pure ⟨rfl, rfl, rfl, h.others, h.left, h.right⟩

end Agree

/-- An instruction that neither reads the local nor sets it. -/
theorem Op.exec_ignores {o : Op} (unread : o ≠ .localGet x) (unset : o.sets x = false)
    {c c' : Config} (h : Agree x c c') :
    Run.Alike (AgreeEnd x) (o.exec M c) (o.exec M c') := by
  rcases c with ⟨stack, locals, store⟩
  rcases c' with ⟨stack', locals', store'⟩
  obtain rfl : stack = stack' := h.stack
  obtain rfl : store = store' := h.store
  cases o with
  | const literal => exact h.pushOr _ _ _
  | localGet name =>
    have hname : name ≠ x := fun heq => unread (congrArg Op.localGet heq)
    have hsame : locals name = locals' name := h.others name hname
    show Run.Alike _ (Config.pushOr _ _ _ (locals name)) (Config.pushOr _ _ _ (locals' name))
    rw [hsame]
    exact h.pushOr _ _ _
  | globalGet name => exact h.pushOr _ _ _
  | call name =>
    show Run.Alike _ (M.call name _) (M.call name _)
    unfold Machine.call
    split
    · exact h.call _
    · exact .stopped _
  | localSet name =>
    have hname : name ≠ x := by
      rintro rfl
      simp [Op.sets] at unset
    have hsame : locals name = locals' name := h.others name hname
    simp only [Op.exec, hsame]
    split
    · exact .pure ⟨rfl, h.withLocal hname _ _⟩
    · exact .stopped _
  | globalSet name =>
    simp only [Op.exec]
    split
    · exact .pure ⟨rfl, rfl, rfl, h.others, h.left, h.right⟩
    · exact .stopped _
  | br label | ret => exact .pure ⟨rfl, h⟩
  | unreachable => exact .stopped _
  | arith a =>
    simp only [Op.exec]
    split
    · exact h.pushOr _ _ _
    · exact .stopped _
  | load8 =>
    simp only [Op.exec]
    split
    · exact h.pushOr _ _ _
    · exact .stopped _
  | brIf label =>
    cases stack with
    | nil => exact .stopped _
    | cons w rest => exact .pure ⟨rfl, h.withStack rest⟩
  | eqz | drop =>
    cases stack with
    | nil => exact .stopped _
    | cons w rest => exact h.goOn _

theorem afterNext_alike {S : Flow × Config → Flow × Config → Prop}
    {k k' : Config → Run (Flow × Config)} {p q : Flow × Config} (flow : p.1 = q.1)
    (next : p.1 = .next → Run.Alike S (k p.2) (k' q.2)) (other : p.1 ≠ .next → S p q) :
    Run.Alike S (afterNext k p) (afterNext k' q) := by
  rcases p with ⟨flow₁, c⟩
  rcases q with ⟨flow₂, c'⟩
  obtain rfl : flow₁ = flow₂ := flow
  cases flow₁ with
  | next => exact next rfl
  | branch l => exact .pure (other (by simp))
  | ret => exact .pure (other (by simp))

namespace Ignores

theorem nil : Ignores M x [] := by
  intro c c' h
  rw [execCode_nil, execCode_nil]
  exact .pure ⟨rfl, h⟩

theorem append {code₁ code₂ : Code} (h₁ : Ignores M x code₁) (h₂ : Ignores M x code₂) :
    Ignores M x (code₁ ++ code₂) := by
  intro c c' h
  rw [execCode_append, execCode_append]
  refine (h₁ c c' h).bind ?_
  intro p q hend
  exact afterNext_alike hend.1 (fun _ => h₂ _ _ hend.2) fun _ => hend

theorem op {o : Op} (unread : o ≠ .localGet x) (unset : o.sets x = false) :
    Ignores M x [.op o] := by
  intro c c' h
  rw [execCode_op, execCode_op, bind_afterNext_nil, bind_afterNext_nil]
  exact Op.exec_ignores unread unset h

theorem comment (text : Bytes) : Ignores M x [.comment text] := by
  intro c c' h
  rw [exec_comment, exec_comment]
  exact nil c c' h

/-- The value on top goes to the local. -/
theorem settles {code : Code} (h₁ : Ignores M x code) :
    Settles M x (code ++ [.op (.localSet x)]) := by
  intro c c' h
  rw [execCode_append, execCode_append]
  refine (h₁ c c' h).bind ?_
  rintro ⟨flow, c₁⟩ ⟨flow', c₁'⟩ ⟨rfl, hend⟩
  refine afterNext_alike rfl ?_ ?_
  · rintro -
    rcases c₁ with ⟨stack, locals, store⟩
    rcases c₁' with ⟨stack', locals', store'⟩
    obtain rfl : stack = stack' := hend.stack
    obtain rfl : store = store' := hend.store
    obtain ⟨w, hw⟩ := Option.isSome_iff_exists.mp hend.left
    obtain ⟨w', hw'⟩ := Option.isSome_iff_exists.mp hend.right
    rw [execCode_op, execCode_op, bind_afterNext_nil, bind_afterNext_nil]
    cases stack with
    | nil => exact .stopped _
    | cons v stack =>
      -- the same word replaces what the two states had there, and they are equal
      have hset := hend.assign_eq v
      have hexec : ∀ {locals : Bytes → Option Word} {w : Word}, locals x = some w →
          Op.exec M (.localSet x) ⟨v :: stack, locals, store⟩ =
            pure (.next, ⟨stack, assign locals x v, store⟩) := by
        intro locals w hw
        simp only [Op.exec, hw]
      rw [hexec hw, hexec hw']
      simp only at hset
      rw [hset]
      have hsome : (assign locals' x v x).isSome := by rw [assign_self]; rfl
      exact .pure ⟨⟨rfl, Agree.refl hsome⟩, fun _ => rfl⟩
  · intro hflow
    exact ⟨⟨rfl, hend⟩, fun hnext => absurd hnext hflow⟩

/-- Both arms of a conditional set the local, and it is pushed behind them. -/
theorem cond {whenTrue whenFalse : Code} (h₁ : Settles M x whenTrue) (h₂ : Settles M x whenFalse) :
    Ignores M x [.cond whenTrue whenFalse, .op (.localGet x)] := by
  -- behind an arm the states are the same, and so is what is pushed
  have harm : ∀ {arm : Code}, Settles M x arm → ∀ {c c' : Config}, Agree x c c' → ∀ stack,
      Run.Alike (AgreeEnd x)
        (execCode M arm { c with stack := [] } >>= leave none stack >>=
          afterNext (execCode M [.op (.localGet x)]))
        (execCode M arm { c' with stack := [] } >>= leave none stack >>=
          afterNext (execCode M [.op (.localGet x)])) := by
    intro arm hsettles c c' h stack
    rw [Run.bind_bind, Run.bind_bind]
    refine (hsettles _ _ (h.withStack [])).bind ?_
    rintro ⟨flow, c₁⟩ ⟨flow', c₁'⟩ ⟨⟨rfl, hend⟩, hsame⟩
    cases flow with
    | next =>
      cases hsame rfl
      have hsome := hend.left
      rcases c₁ with ⟨_ | ⟨v, rest⟩, locals, store⟩
      · rw [leave_next, Run.done_bind, afterNext_next, execCode_op, bind_afterNext_nil]
        have hstart : Agree x ⟨stack, locals, store⟩ ⟨stack, locals, store⟩ := .refl hsome
        exact hstart.pushOr _ _ _
      · exact .stopped _
    | branch l => exact .pure ⟨rfl, hend⟩
    | ret => exact .pure ⟨rfl, hend⟩
  intro c c' h
  rw [execCode_cons, execCode_cons, Instr.exec, Instr.exec]
  rcases c with ⟨stack, locals, store⟩
  rcases c' with ⟨stack', locals', store'⟩
  obtain rfl : stack = stack' := h.stack
  obtain rfl : store = store' := h.store
  cases stack with
  | nil => exact .stopped _
  | cons w stack =>
    by_cases hw : w = 0
    · simp only [if_pos hw]
      exact harm h₂ h stack
    · simp only [if_neg hw]
      exact harm h₁ h stack

end Ignores

end TreeWat.Wat
