import TreeWat.Proofs.Wat.Arithmetic
set_option autoImplicit false

/-!
# Wat: running code without overflow

Sums, differences and products of words wrap around.  A checked run is one in which
none may: it calls an overflow wrong, and does the same as a plain run otherwise.  So a
checked run that goes right is the plain run, and says besides that every number on the
way was exact.
-/

namespace TreeWat.Wat

/-! ## Overflow -/

/-- The integer is the value of a word. -/
def Fits (i : Int) : Prop :=
  -2 ^ 31 ≤ i ∧ i < 2 ^ 31

instance (i : Int) : Decidable (Fits i) :=
  inferInstanceAs (Decidable (_ ∧ _))

/-- The exact result of an instruction, as far as a word may be too small for it. -/
def Arith.unbounded? : Arith → Int → Int → Option Int
  | .add, i, j => some (i + j)
  | .sub, i, j => some (i - j)
  | .mul, i, j => some (i * j)
  | _, _, _ => none

/-- The exact result of the instruction on the two words is not that of a word. -/
def Arith.overflows (a : Arith) (u v : Word) : Bool :=
  (a.unbounded? u.toInt v.toInt).any fun i => !decide (Fits i)

theorem Arith.apply_exact {a : Arith} {i j r : Int} (hexact : a.unbounded? i j = some r) :
    a.apply (BitVec.ofInt 32 i) (BitVec.ofInt 32 j) = some (BitVec.ofInt 32 r) := by
  cases a with
  | add =>
    cases hexact
    exact apply_add i j
  | sub =>
    cases hexact
    exact apply_sub i j
  | mul =>
    cases hexact
    exact apply_mul i j
  | _ => cases hexact

/-- An instruction that does not overflow gives its exact result. -/
theorem Arith.toInt_apply {a : Arith} {u v w : Word} {i : Int}
    (hexact : a.unbounded? u.toInt v.toInt = some i) (hfits : a.overflows u v = false)
    (happly : a.apply u v = some w) : w.toInt = i := by
  have hi : Fits i := by
    rw [overflows, hexact] at hfits
    simpa using hfits
  have hw := apply_exact hexact
  rw [BitVec.ofInt_toInt, BitVec.ofInt_toInt, happly] at hw
  cases hw
  exact toInt_ofInt hi.1 hi.2

theorem Arith.overflows_ofInt {a : Arith} {i j r : Int} (hi : Fits i) (hj : Fits j)
    (hexact : a.unbounded? i j = some r) (hr : Fits r) :
    a.overflows (BitVec.ofInt 32 i) (BitVec.ofInt 32 j) = false := by
  rw [overflows, toInt_ofInt hi.1 hi.2, toInt_ofInt hj.1 hj.2, hexact]
  simpa using hr

/-! ## Checked runs -/

/-- Runs a plain instruction; one that overflows is wrong. -/
def Op.check (M : Machine) (o : Op) (c : Config) : Run (Flow × Config) :=
  match o, c.stack with
  | .arith a, v :: u :: _ => if a.overflows u v then .stop .wrong else o.exec M c
  | _, _ => o.exec M c

mutual

/-- Runs one element of a body in which nothing may overflow. -/
def Instr.check (M : Machine) (i : Instr Op) (c : Config) : Run (Flow × Config) :=
  match i with
  | .op o => o.check M c
  | .comment _ => c.goOn c.stack
  | .block label body => do
    let p ← checkCode M body { c with stack := [] }
    leave (some label) c.stack p
  | .loop label body => repeatLoop label (checkCode M body) M.fuel c
  | .cond whenTrue whenFalse =>
    match c.stack with
    | w :: stack =>
      (if w = 0 then checkCode M whenFalse { c with stack := [] }
        else checkCode M whenTrue { c with stack := [] }) >>= leave none stack
    | [] => .stop .wrong

/-- Runs code in which nothing may overflow. -/
def checkCode (M : Machine) (code : List (Instr Op)) (c : Config) : Run (Flow × Config) :=
  match code with
  | [] => c.goOn c.stack
  | i :: rest => do
    let p ← i.check M c
    afterNext (checkCode M rest) p

end

/-- Runs a function in whose body nothing may overflow. -/
def Func.check (f : Func Op) (M : Machine) (args : List Word) (store : Store Word) :
    Run (Option Word × Store Word) := do
  let p ← checkCode M f.body ⟨[], f.bound args, store⟩
  f.finish p

end TreeWat.Wat

namespace TreeWat.Run

variable {α β : Type}

/-- Unless the first run goes wrong, the second run is the same. -/
def Confirms (r r' : Run α) : Prop :=
  r.res = .error .wrong ∨ r = r'

theorem Confirms.refl (r : Run α) : r.Confirms r :=
  .inr rfl

theorem Confirms.wrong (r : Run α) : (stop .wrong).Confirms r :=
  .inl rfl

theorem Confirms.bind {r r' : Run α} {k k' : α → Run β} (h : r.Confirms r')
    (hk : ∀ a, (k a).Confirms (k' a)) : (r >>= k).Confirms (r' >>= k') := by
  rcases r with ⟨out, e | a⟩
  · rcases h with h | rfl
    · cases h
      exact .inl rfl
    · exact .inr rfl
  · rcases h with h | rfl
    · cases h
    · rw [ok_bind, ok_bind]
      rcases hk a with hwrong | hsame
      · exact .inl hwrong
      · rw [hsame]
        exact .inr rfl

end TreeWat.Run

namespace TreeWat.Wat

variable {M : Machine}

/-! ## Checked runs confirm plain runs -/

theorem Op.check_confirms (o : Op) (c : Config) : (o.check M c).Confirms (o.exec M c) := by
  unfold Op.check
  split
  · split
    · exact .wrong _
    · exact .refl _
  · exact .refl _

theorem afterNext_confirms {k k' : Config → Run (Flow × Config)}
    (h : ∀ c, (k c).Confirms (k' c)) (p : Flow × Config) :
    (afterNext k p).Confirms (afterNext k' p) := by
  rcases p with ⟨_ | _ | _, c⟩
  · exact h c
  · exact .refl _
  · exact .refl _

theorem repeatLoop_confirms {label : Bytes} {k k' : Config → Run (Flow × Config)}
    (h : ∀ c, (k c).Confirms (k' c)) (n : Nat) (c : Config) :
    (repeatLoop label k n c).Confirms (repeatLoop label k' n c) := by
  induction n generalizing c with
  | zero => exact .refl _
  | succ n ih =>
    rw [repeatLoop, repeatLoop]
    refine .bind (h _) fun p => ?_
    rcases p with ⟨_ | l | _, c'⟩
    · exact .refl _
    · show Run.Confirms (if l = label then _ else _) (if l = label then _ else _)
      by_cases hl : l = label
      · rw [if_pos hl, if_pos hl]
        exact ih _
      · rw [if_neg hl, if_neg hl]
        exact .refl _
    · exact .refl _

mutual

theorem Instr.check_confirms (i : Instr Op) (c : Config) :
    (i.check M c).Confirms (i.exec M c) := by
  cases i with
  | op o =>
    rw [Instr.check, Instr.exec]
    exact o.check_confirms c
  | comment text =>
    rw [Instr.check, Instr.exec]
    exact .refl _
  | block label body =>
    rw [Instr.check, Instr.exec]
    exact .bind (checkCode_confirms body _) fun _ => .refl _
  | loop label body =>
    rw [Instr.check, Instr.exec]
    exact repeatLoop_confirms (checkCode_confirms body) M.fuel c
  | cond whenTrue whenFalse =>
    rw [Instr.check, Instr.exec]
    cases c.stack with
    | nil => exact .refl _
    | cons w stack =>
      refine .bind ?_ fun _ => .refl _
      by_cases hw : w = 0
      · rw [if_pos hw, if_pos hw]
        exact checkCode_confirms whenFalse _
      · rw [if_neg hw, if_neg hw]
        exact checkCode_confirms whenTrue _

theorem checkCode_confirms (code : Code) (c : Config) :
    (checkCode M code c).Confirms (execCode M code c) := by
  cases code with
  | nil =>
    rw [checkCode, execCode]
    exact .refl _
  | cons i rest =>
    rw [checkCode, execCode]
    exact .bind (Instr.check_confirms i c) (afterNext_confirms (checkCode_confirms rest))

end

theorem Func.check_confirms (f : Func Op) (args : List Word) (store : Store Word) :
    (f.check M args store).Confirms (f.run M args store) :=
  .bind (checkCode_confirms f.body _) fun _ => .refl _

/-! ## Sequences -/

theorem checkCode_nil (c : Config) : checkCode M [] c = pure (.next, c) := by
  rw [checkCode]
  rfl

theorem checkCode_cons (i : Instr Op) (rest : Code) (c : Config) :
    checkCode M (i :: rest) c = i.check M c >>= afterNext (checkCode M rest) := by
  rw [checkCode]

theorem bind_afterNext_check_nil (r : Run (Flow × Config)) :
    r >>= afterNext (checkCode M []) = r := by
  have hlast : checkCode M [] = fun c => pure (.next, c) := funext checkCode_nil
  rw [hlast, afterNext_pure]
  exact Run.bind_done r

theorem checkCode_append (code₁ code₂ : Code) (c : Config) :
    checkCode M (code₁ ++ code₂) c = checkCode M code₁ c >>= afterNext (checkCode M code₂) := by
  induction code₁ generalizing c with
  | nil =>
    rw [checkCode_nil]
    rfl
  | cons i rest ih =>
    rw [List.cons_append, checkCode_cons, checkCode_cons, Run.bind_bind]
    congr 1
    funext p
    rw [afterNext_bind]
    congr 1
    funext c'
    exact ih c'

/-! ## Single instructions -/

section Instructions

variable {locals : Bytes → Option Word} {store : Store Word} {stack : List Word} {rest : Code}

/-- Only arithmetic is checked. -/
theorem checkCode_op {o : Op} (plain : ∀ a, o ≠ .arith a) (rest : Code) (c : Config) :
    checkCode M (.op o :: rest) c = o.exec M c >>= afterNext (checkCode M rest) := by
  have hsame : o.check M c = o.exec M c := by
    cases o with
    | arith a => exact absurd rfl (plain a)
    | _ => rfl
  rw [checkCode_cons, Instr.check, hsame]

theorem check_number {i : Int} (low : -2 ^ 31 ≤ i) (high : i < 2 ^ 32) :
    checkCode M (.op (.number i) :: rest) ⟨stack, locals, store⟩ =
      checkCode M rest ⟨BitVec.ofInt 32 i :: stack, locals, store⟩ := by
  have hvalue : Word.ofNumeral? (Bytes.ofInt i) = some (BitVec.ofInt 32 i) :=
    Word.ofNumeral?_ofInt low high
  rw [checkCode_op (by simp [Op.number])]
  simp only [Op.number, Op.exec, hvalue]
  rfl

theorem check_localGet {name : Bytes} {w : Word} (h : locals name = some w) :
    checkCode M (.op (.localGet name) :: rest) ⟨stack, locals, store⟩ =
      checkCode M rest ⟨w :: stack, locals, store⟩ := by
  rw [checkCode_op (by simp)]
  simp only [Op.exec, h]
  rfl

theorem check_localSet {name : Bytes} {w w' : Word} (h : locals name = some w') :
    checkCode M (.op (.localSet name) :: rest) ⟨w :: stack, locals, store⟩ =
      checkCode M rest ⟨stack, assign locals name w, store⟩ := by
  rw [checkCode_op (by simp)]
  simp only [Op.exec, h]
  rfl

theorem check_arith {a : Arith} {w₁ w₂ w : Word} (hfits : a.overflows w₁ w₂ = false)
    (h : a.apply w₁ w₂ = some w) :
    checkCode M (.op (.arith a) :: rest) ⟨w₂ :: w₁ :: stack, locals, store⟩ =
      checkCode M rest ⟨w :: stack, locals, store⟩ := by
  have hcheck : Op.check M (.arith a) ⟨w₂ :: w₁ :: stack, locals, store⟩ =
      Op.exec M (.arith a) ⟨w₂ :: w₁ :: stack, locals, store⟩ := by
    simp only [Op.check, hfits]
    rfl
  rw [checkCode_cons, Instr.check, hcheck]
  simp only [Op.exec, h]
  rfl

/-- A sum, a difference or a product that fits. -/
theorem check_exact {a : Arith} {i j r : Int} (hi : Fits i) (hj : Fits j)
    (hexact : a.unbounded? i j = some r) (hr : Fits r) :
    checkCode M (.op (.arith a) :: rest)
        ⟨BitVec.ofInt 32 j :: BitVec.ofInt 32 i :: stack, locals, store⟩ =
      checkCode M rest ⟨BitVec.ofInt 32 r :: stack, locals, store⟩ :=
  check_arith (Arith.overflows_ofInt hi hj hexact hr) (Arith.apply_exact hexact)

theorem check_eqz {w : Word} :
    checkCode M (.op .eqz :: rest) ⟨w :: stack, locals, store⟩ =
      checkCode M rest ⟨Word.ofBool (w == 0) :: stack, locals, store⟩ := by
  rw [checkCode_op (by simp), Op.exec]
  rfl

theorem check_brIf_zero {label : Bytes} :
    checkCode M (.op (.brIf label) :: rest) ⟨0 :: stack, locals, store⟩ =
      checkCode M rest ⟨stack, locals, store⟩ := by
  rw [checkCode_op (by simp), Op.exec]
  rfl

theorem check_brIf {label : Bytes} {w : Word} (h : w ≠ 0) :
    checkCode M (.op (.brIf label) :: rest) ⟨w :: stack, locals, store⟩ =
      pure (.branch label, ⟨stack, locals, store⟩) := by
  rw [checkCode_op (by simp), Op.exec]
  simp only [if_neg h]
  rfl

theorem check_block {label : Bytes} {body : Code} :
    checkCode M (.block label body :: rest) ⟨stack, locals, store⟩ =
      checkCode M body ⟨[], locals, store⟩ >>= leave (some label) stack
        >>= afterNext (checkCode M rest) := by
  rw [checkCode_cons, Instr.check]

theorem check_loop {label : Bytes} {body : Code} (c : Config) :
    checkCode M (.loop label body :: rest) c =
      repeatLoop label (checkCode M body) M.fuel c >>= afterNext (checkCode M rest) := by
  rw [checkCode_cons, Instr.check]

theorem check_cond_zero {whenTrue whenFalse : Code} :
    checkCode M (.cond whenTrue whenFalse :: rest) ⟨0 :: stack, locals, store⟩ =
      checkCode M whenFalse ⟨[], locals, store⟩ >>= leave none stack
        >>= afterNext (checkCode M rest) := by
  rw [checkCode_cons, Instr.check]
  rfl

theorem check_cond {whenTrue whenFalse : Code} {w : Word} (h : w ≠ 0) :
    checkCode M (.cond whenTrue whenFalse :: rest) ⟨w :: stack, locals, store⟩ =
      checkCode M whenTrue ⟨[], locals, store⟩ >>= leave none stack
        >>= afterNext (checkCode M rest) := by
  rw [checkCode_cons, Instr.check]
  simp only [if_neg h]

theorem check_call {name : Bytes} {f : Callable} {args : List Word}
    (callee : M.callee name = some f) (count : f.params = args.length) :
    checkCode M (.op (.call name) :: rest) ⟨args.reverse ++ stack, locals, store⟩ =
      f.run args store >>= fun p => checkCode M rest ⟨p.1.toList ++ stack, locals, p.2⟩ := by
  have hcall : Op.exec M (.call name) ⟨args.reverse ++ stack, locals, store⟩ =
      f.run args store >>= fun p => pure (.next, ⟨p.1.toList ++ stack, locals, p.2⟩) := by
    have hplain : execCode M [.op (.call name)] ⟨args.reverse ++ stack, locals, store⟩ = _ :=
      exec_call callee count
    rw [execCode_op, bind_afterNext_nil] at hplain
    simpa only [execCode_nil] using hplain
  rw [checkCode_op (by simp), hcall, Run.bind_bind]
  rfl

end Instructions

end TreeWat.Wat
