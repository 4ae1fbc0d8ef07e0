import Mathlib.Data.Nat.Log
import TreeWat.Proofs.Lower.Printing
import TreeWat.Proofs.Wat.Checked
set_option autoImplicit false

/-!
# Lower: the runtime library writes decimal numbers

`printi` writes the canonical decimal form of its argument, for all numbers from the least
to the greatest.  It is run checked, so that neither its divisor nor a negation leaves the
range of the words on the way.

Two loops do the work.  The first lets the divisor grow to the largest power of ten that
is not above the magnitude of the number: it compares with a tenth of the magnitude, and
never with a power of ten that is too large.  The second goes back down, digit by digit.
-/

namespace TreeWat.Lower

open Wat (Code Op Arith Instr Machine Callable Flow Fits checkCode)

variable {M : Machine} {env : Env} {locals : Bytes → Option Word} {store : Store Word}
  {stack : List Word} {rest : Code}

/-- The `printc` that library code calls is the host's. -/
def WritesChars (M : Machine) (env : Env) : Prop :=
  M.callee (builtinName env "printc") = some Wat.putchar

theorem check_printc (h : WritesChars M env) {w : Word} :
    checkCode M (.op (.call (builtinName env "printc")) :: rest) ⟨w :: stack, locals, store⟩ =
      Run.emitAll [w] >>= fun _ => checkCode M rest ⟨stack, locals, store⟩ := by
  have hcall : checkCode M (.op (.call (builtinName env "printc")) :: rest)
      ⟨[w].reverse ++ stack, locals, store⟩ = _ := Wat.check_call h rfl
  exact hcall

/-! ## Loops of the library -/

/-- What a loop writes that goes through so many rounds, by the number of rounds that
are left behind each. -/
def written (out : Nat → List Word) : Nat → List Word
  | 0 => []
  | k + 1 => out k ++ written out k

section Loops

variable {test code : Code} {round : Nat → (Bytes → Option Word) → Prop}
  {out : Nat → List Word}
  (htest : ∀ {k locals}, round k locals → checkCode M test ⟨[], locals, store⟩ =
    pure (.next, ⟨[Word.ofBool (decide (k ≠ 0))], locals, store⟩))
  (hcode : ∀ {k locals}, round (k + 1) locals → ∃ locals', round k locals' ∧
    checkCode M code ⟨[], locals, store⟩ =
      Run.emitAll (out k) >>= fun _ => pure (.next, ⟨[], locals', store⟩))

include htest hcode

/-- One round of a loop. -/
theorem repeat_round (num : Nat) {k : Nat} {locals : Bytes → Option Word}
    (h : round (k + 1) locals) (n : Nat) :
    ∃ locals', round k locals' ∧
      Wat.repeatLoop (loopLabel num)
        (checkCode M (code ++ test ++ [.op (.brIf (loopLabel num))])) (n + 1) ⟨[], locals, store⟩ =
      Run.emitAll (out k) >>= fun _ =>
        if k = 0 then pure (.next, ⟨[], locals', store⟩)
        else Wat.repeatLoop (loopLabel num)
          (checkCode M (code ++ test ++ [.op (.brIf (loopLabel num))])) n ⟨[], locals', store⟩ := by
  obtain ⟨locals', hround, hcheck⟩ := hcode h
  refine ⟨locals', hround, ?_⟩
  have hagain : checkCode M (test ++ [.op (.brIf (loopLabel num))]) ⟨[], locals', store⟩ =
      pure (if k = 0 then .next else .branch (loopLabel num), ⟨[], locals', store⟩) := by
    rw [Wat.checkCode_append, htest hround, Run.done_bind, Wat.afterNext_next]
    cases k with
    | zero => exact Wat.check_brIf_zero.trans (Wat.checkCode_nil _)
    | succ k => exact Wat.check_brIf (show Word.ofBool true ≠ 0 by decide)
  rw [Wat.repeatLoop, List.append_assoc, Wat.checkCode_append, hcheck, Run.bind_bind, Run.bind_bind]
  congr 1
  funext _
  rw [Run.done_bind, Wat.afterNext_next, hagain, Run.done_bind]
  cases k with
  | zero => exact Wat.leave_next
  | succ k => simp

theorem repeat_rounds (num : Nat) {k : Nat} {locals : Bytes → Option Word}
    (h : round (k + 1) locals) {n : Nat} (fuel : k < n) :
    ∃ locals', round 0 locals' ∧
      Wat.repeatLoop (loopLabel num)
        (checkCode M (code ++ test ++ [.op (.brIf (loopLabel num))])) n ⟨[], locals, store⟩ =
      Run.emitAll (written out (k + 1)) >>= fun _ => pure (.next, ⟨[], locals', store⟩) := by
  -- on the rounds to go, which stay below the fuel
  induction k generalizing locals n with
  | zero =>
    obtain ⟨n, rfl⟩ : ∃ m, n = m + 1 := ⟨n - 1, by omega⟩
    obtain ⟨locals', hround, hcheck⟩ := repeat_round htest hcode num h n
    refine ⟨locals', hround, ?_⟩
    rw [hcheck, written, written, List.append_nil]
    rfl
  | succ k ih =>
    obtain ⟨n, rfl⟩ : ∃ m, n = m + 1 := ⟨n - 1, by omega⟩
    obtain ⟨locals₁, hround₁, hcheck⟩ := repeat_round htest hcode num h n
    obtain ⟨locals', hround', hrest⟩ := ih hround₁ (n := n) (by omega)
    refine ⟨locals', hround', ?_⟩
    rw [hcheck, written, Run.emitAll_append, if_neg (Nat.succ_ne_zero k), hrest]

/-- A loop that goes through so many rounds. -/
theorem check_whileLoop_rounds (num : Nat) {k : Nat} {locals : Bytes → Option Word}
    (h : round k locals) (fuel : k ≤ M.fuel) (rest : Code) :
    ∃ locals', round 0 locals' ∧
      checkCode M (whileLoop num test code test :: rest) ⟨[], locals, store⟩ =
      Run.emitAll (written out k) >>= fun _ => checkCode M rest ⟨[], locals', store⟩ := by
  unfold whileLoop
  cases k with
  | zero =>
    refine ⟨locals, h, ?_⟩
    rw [Wat.check_block, Wat.checkCode_append, htest h, Run.done_bind, Wat.afterNext_next,
      Wat.check_eqz, Wat.check_brIf (by decide), Run.done_bind, Wat.leave_branch]
    rfl
  | succ k =>
    obtain ⟨locals', hround, hloop⟩ := repeat_rounds htest hcode num h
      (show k < M.fuel by omega)
    refine ⟨locals', hround, ?_⟩
    have hzero : Word.ofBool (Word.ofBool (decide (k + 1 ≠ 0)) == 0) = 0 := by simp [Word.ofBool]
    rw [Wat.check_block, Wat.checkCode_append, htest h, Run.done_bind, Wat.afterNext_next,
      Wat.check_eqz, hzero, Wat.check_brIf_zero, Wat.check_loop, Wat.bind_afterNext_check_nil,
      hloop, Run.bind_bind, Run.bind_bind]
    rfl

end Loops

/-! ## Decimal numbers -/

/-- The locals of `printi`. -/
structure Dividing (x : Word) (d : Nat) (locals : Bytes → Option Word) : Prop where
  number : locals (utf8 "$x") = some x
  divisor : locals (utf8 "$div") = some (BitVec.ofInt 32 d)

theorem Dividing.set {x : Word} {d : Nat} {locals : Bytes → Option Word} (h : Dividing x d locals)
    (d' : Nat) : Dividing x d' (assign locals (utf8 "$div") (BitVec.ofInt 32 d')) :=
  ⟨(assign_of_ne (by decide)).trans h.number, assign_self _ _ _⟩

/-- The code pushes a number. -/
def Pushes (M : Machine) (code : Code) (locals : Bytes → Option Word) (i : Int) : Prop :=
  ∀ stack store rest, checkCode M (code ++ rest) ⟨stack, locals, store⟩ =
    checkCode M rest ⟨BitVec.ofInt 32 i :: stack, locals, store⟩

theorem written_nil (k : Nat) : written (fun _ => []) k = [] := by
  induction k with
  | zero => rfl
  | succ k ih => rw [written, ih, List.append_nil]

section Digits

variable {x : Word} {N e : Nat} (lower : 10 ^ e ≤ N) (upper : N < 10 ^ (e + 1)) (fits : N ≤ 2 ^ 31)

include lower fits in
theorem exponent_le : e ≤ 9 := by
  by_contra hlarge
  have hpow : 10 ^ 10 ≤ 10 ^ e := Nat.pow_le_pow_right (by decide) (by omega)
  omega

theorem pow_range {k : Nat} (h : k ≤ 9) :
    -2 ^ 31 ≤ ((10 ^ k : Nat) : Int) ∧ 0 < ((10 ^ k : Nat) : Int) ∧
      ((10 ^ k : Nat) : Int) < 2 ^ 31 := by
  have hpow : 10 ^ k ≤ 10 ^ 9 := Nat.pow_le_pow_right (by decide) h
  have hpos : 0 < 10 ^ k := Nat.pow_pos (by decide)
  generalize 10 ^ k = d at hpow hpos
  omega

include upper in
theorem first_lt : N / 10 ^ e < 10 := by
  rw [Nat.div_lt_iff_lt_mul (Nat.pow_pos (by decide)), ← Nat.pow_succ']
  exact upper

include lower upper in
/-- A smaller power of ten is at most a tenth of the number. -/
theorem pow_le_tenth_iff {k : Nat} (hk : k ≤ e) : 10 ^ (e - k) ≤ N / 10 ↔ k ≠ 0 := by
  rw [Nat.le_div_iff_mul_le (by decide), ← Nat.pow_succ]
  constructor
  · rintro h rfl
    exact absurd upper (not_lt.mpr h)
  · intro h
    have hpow : 10 ^ (e - k + 1) ≤ 10 ^ e := Nat.pow_le_pow_right (by decide) (by omega)
    exact hpow.trans lower

/-- What holds when the first loop has so many rounds to go. -/
def Growing (x : Word) (e k : Nat) (locals : Bytes → Option Word) : Prop :=
  k ≤ e ∧ Dividing x (10 ^ (e - k)) locals

include lower upper fits in
/-- The first loop goes on as long as there are rounds to go. -/
theorem Growing.test {limit : Code}
    (hlimit : ∀ {d locals}, Dividing x d locals → Pushes M limit locals (N / 10 : Nat)) {k : Nat}
    (h : Growing x e k locals) :
    checkCode M ([getLocal "$div"] ++ limit ++ [arith .le]) ⟨[], locals, store⟩ =
      pure (.next, ⟨[Word.ofBool (decide (k ≠ 0))], locals, store⟩) := by
  obtain ⟨hk, hdiv⟩ := h
  have hexponent := exponent_le lower fits
  obtain ⟨hlow, -, hhigh⟩ := pow_range (show e - k ≤ 9 by omega)
  have hle := Wat.apply_le (j := (N / 10 : Nat)) hlow hhigh (by omega) (by omega)
  rw [List.append_assoc, List.singleton_append, getLocal, Wat.check_localGet hdiv.divisor,
    hlimit hdiv, arith, Wat.check_arith rfl hle, Wat.checkCode_nil]
  simp only [Int.ofNat_le, pow_le_tenth_iff lower upper hk]

theorem Growing.round (hexponent : e ≤ 9) {k : Nat} (h : Growing x e (k + 1) locals) :
    ∃ locals', Growing x e k locals' ∧
      checkCode M [getLocal "$div", number 10, arith .mul, setLocal "$div"] ⟨[], locals, store⟩ =
        Run.emitAll [] >>= fun _ => pure (.next, ⟨[], locals', store⟩) := by
  obtain ⟨hk, hdiv⟩ := h
  obtain ⟨hlow, -, hhigh⟩ := pow_range (show e - (k + 1) ≤ 9 by omega)
  obtain ⟨hlow', -, hhigh'⟩ := pow_range (show e - k ≤ 9 by omega)
  have hpow : 10 ^ (e - (k + 1)) * 10 = 10 ^ (e - k) := by
    rw [← Nat.pow_succ]
    congr 1
    omega
  have hproduct : Arith.mul.unbounded? (10 ^ (e - (k + 1)) : Nat) 10 =
      some ((10 ^ (e - k) : Nat) : Int) := by
    rw [← hpow]
    rfl
  refine ⟨_, ⟨by omega, hdiv.set (10 ^ (e - k))⟩, ?_⟩
  -- the product is in range since the loop stops at the exponent of the number
  rw [getLocal, number, arith, setLocal, Wat.check_localGet hdiv.divisor,
    Wat.check_number (by decide) (by decide),
    Wat.check_exact ⟨hlow, hhigh⟩ (by decide) hproduct ⟨hlow', hhigh'⟩,
    Wat.check_localSet hdiv.divisor, Wat.checkCode_nil]
  rfl

include lower upper fits in
/-- The divisor grows to the largest power of ten that is not above the number. -/
theorem check_growDivisor {limit : Code}
    (hlimit : ∀ {d locals}, Dividing x d locals → Pushes M limit locals (N / 10 : Nat))
    (hlocals : Dividing x 1 locals) (fuel : 9 ≤ M.fuel) (num : Nat) (rest : Code) :
    ∃ locals', Dividing x (10 ^ e) locals' ∧
      checkCode M (growDivisor num limit :: rest) ⟨[], locals, store⟩ =
        checkCode M rest ⟨[], locals', store⟩ := by
  have hexponent := exponent_le lower fits
  have hstart : Growing x e e locals := ⟨le_refl e, by rw [Nat.sub_self]; exact hlocals⟩
  obtain ⟨locals', ⟨-, hend⟩, hcheck⟩ := check_whileLoop_rounds
    (fun h => h.test lower upper fits hlimit) (fun h => h.round hexponent) num hstart (by omega)
    rest
  refine ⟨locals', hend, ?_⟩
  rw [written_nil, Run.emitAll_nil] at hcheck
  exact hcheck

/-- A digit and the code of zero. -/
theorem check_ascii {d : Nat} (h : d < 10) :
    checkCode M (.op (.arith .add) :: rest)
        ⟨BitVec.ofInt 32 48 :: BitVec.ofInt 32 d :: stack, locals, store⟩ =
      checkCode M rest ⟨BitVec.ofInt 32 (d + 48) :: stack, locals, store⟩ :=
  Wat.check_exact ⟨by omega, by omega⟩ (by decide) rfl ⟨by omega, by omega⟩

theorem tenth_pow (k : Nat) : ((10 ^ (k + 1) : Nat) : Int).tdiv 10 = (10 ^ k : Nat) := by
  have hdivide : 10 ^ (k + 1) / 10 = 10 ^ k := by
    rw [Nat.pow_succ]
    exact Nat.mul_div_cancel _ (by decide)
  rw [← hdivide]
  exact (Int.ofNat_tdiv _ _).symm

/-- What holds when the second loop has so many rounds to go. -/
def Shrinking (x : Word) (e k : Nat) (locals : Bytes → Option Word) : Prop :=
  k ≤ e ∧ Dividing x (10 ^ k) locals

/-- The second loop goes on as long as there are rounds to go. -/
theorem Shrinking.test (hexponent : e ≤ 9) {k : Nat} (h : Shrinking x e k locals) :
    checkCode M [getLocal "$div", number 1, arith .gt] ⟨[], locals, store⟩ =
      pure (.next, ⟨[Word.ofBool (decide (k ≠ 0))], locals, store⟩) := by
  obtain ⟨hk, hdiv⟩ := h
  obtain ⟨hlow, -, hhigh⟩ := pow_range (show k ≤ 9 by omega)
  have hgt := Wat.apply_gt (j := 1) hlow hhigh (by decide) (by decide)
  have hone : (1 : Int) < (10 ^ k : Nat) ↔ k ≠ 0 := by
    rw [← Int.natCast_one, Int.ofNat_lt]
    constructor
    · rintro h rfl
      exact absurd h (by decide)
    · intro h
      exact Nat.one_lt_pow h (by decide)
  rw [getLocal, number, arith, Wat.check_localGet hdiv.divisor,
    Wat.check_number (by decide) (by decide), Wat.check_arith rfl hgt, Wat.checkCode_nil]
  simp only [hone]

theorem Shrinking.round (hexponent : e ≤ 9) (hprintc : WritesChars M env) {digit : Code}
    (hdigit : ∀ {k locals}, k < e → Dividing x (10 ^ (k + 1)) locals →
      Pushes M digit locals (N / 10 ^ k % 10 : Nat))
    {k : Nat} (h : Shrinking x e (k + 1) locals) :
    ∃ locals', Shrinking x e k locals' ∧
      checkCode M (digit ++ [number 48, arith .add, .op (.call (builtinName env "printc")),
        getLocal "$div", number 10, arith .div, setLocal "$div"]) ⟨[], locals, store⟩ =
        Run.emitAll [BitVec.ofInt 32 ((N / 10 ^ k % 10 : Nat) + 48)] >>= fun _ =>
          pure (.next, ⟨[], locals', store⟩) := by
  obtain ⟨hk, hdiv⟩ := h
  obtain ⟨hlow, -, hhigh⟩ := pow_range (show k + 1 ≤ 9 by omega)
  have hdivide := Wat.apply_div (j := 10) hlow hhigh (by decide) (by decide)
  rw [tenth_pow] at hdivide
  have hten : N / 10 ^ k % 10 < 10 := Nat.mod_lt _ (by decide)
  refine ⟨_, ⟨by omega, hdiv.set (10 ^ k)⟩, ?_⟩
  rw [hdigit (by omega) hdiv, number, number, arith, arith, getLocal, setLocal,
    Wat.check_number (by decide) (by decide), check_ascii hten,
    check_printc hprintc, Wat.check_localGet hdiv.divisor,
    Wat.check_number (by decide) (by decide), Wat.check_arith rfl hdivide,
    Wat.check_localSet hdiv.divisor, Wat.checkCode_nil]

include lower fits in
/-- The divisor walks down, and each digit is written. -/
theorem check_writeDigits (hprintc : WritesChars M env) {digit : Code}
    (hdigit : ∀ {k locals}, k < e → Dividing x (10 ^ (k + 1)) locals →
      Pushes M digit locals (N / 10 ^ k % 10 : Nat))
    (hlocals : Dividing x (10 ^ e) locals) (fuel : 9 ≤ M.fuel) (num : Nat) (rest : Code) :
    ∃ locals', checkCode M (writeDigits env num digit :: rest) ⟨[], locals, store⟩ =
      Run.emitAll (written (fun k => [BitVec.ofInt 32 ((N / 10 ^ k % 10 : Nat) + 48)]) e) >>=
        fun _ => checkCode M rest ⟨[], locals', store⟩ := by
  have hexponent := exponent_le lower fits
  have hstart : Shrinking x e e locals := ⟨le_refl e, hlocals⟩
  obtain ⟨locals', -, hcheck⟩ := check_whileLoop_rounds (fun h => h.test hexponent)
    (fun h => h.round hexponent hprintc hdigit) num hstart (by omega) rest
  exact ⟨locals', hcheck⟩

/-- The number that writes a digit. -/
theorem digit_word {d : Nat} (h : d < 10) :
    BitVec.ofNat 32 (digitByte d).toNat = BitVec.ofInt 32 (d + 48) := by
  rw [digitByte_toNat h, show ((d : Int) + 48) = ((48 + d : Nat) : Int) by omega,
    BitVec.ofInt_natCast]

/-- The digits from some place on. -/
theorem decimal_words (k : Nat) (h : 0 < N / 10 ^ k) :
    (Bytes.ofNat N).map (fun b => BitVec.ofNat 32 b.toNat) =
      (Bytes.ofNat (N / 10 ^ k)).map (fun b => BitVec.ofNat 32 b.toNat) ++
        written (fun k => [BitVec.ofInt 32 ((N / 10 ^ k % 10 : Nat) + 48)]) k := by
  induction k with
  | zero => rw [Nat.pow_zero, Nat.div_one, written, List.append_nil]
  | succ k ih =>
    have hstep : N / 10 ^ k = 10 * (N / 10 ^ (k + 1)) + N / 10 ^ k % 10 := by
      rw [Nat.pow_succ, ← Nat.div_div_eq_div_mul]
      omega
    have hdigit : N / 10 ^ k % 10 < 10 := Nat.mod_lt _ (by decide)
    have hlast : Bytes.ofNat (N / 10 ^ k) =
        Bytes.ofNat (N / 10 ^ (k + 1)) ++ [digitByte (N / 10 ^ k % 10)] := by
      rw [← Bytes.ofNat_step h hdigit, ← hstep]
    rw [ih (by omega), written, hlast, List.map_append, List.map_singleton, digit_word hdigit,
      List.append_assoc]

include lower upper fits in
/-- The decimal digits of a number: its divisor grows, the first digit is written, and
the divisor walks down. -/
theorem check_decimal (hprintc : WritesChars M env) (fuel : 9 ≤ M.fuel)
    {limit quotient digit : Code}
    (hlimit : ∀ {d locals}, Dividing x d locals → Pushes M limit locals (N / 10 : Nat))
    (hquotient : ∀ {locals}, Dividing x (10 ^ e) locals →
      Pushes M quotient locals (N / 10 ^ e : Nat))
    (hdigit : ∀ {k locals}, k < e → Dividing x (10 ^ (k + 1)) locals →
      Pushes M digit locals (N / 10 ^ k % 10 : Nat))
    (hlocals : Dividing x 1 locals) (store : Store Word) (num₁ num₂ : Nat) :
    ∃ locals', checkCode M (growDivisor num₁ limit :: (quotient ++ [number 48, arith .add,
        .op (.call (builtinName env "printc")), writeDigits env num₂ digit]))
        ⟨[], locals, store⟩ =
      Run.emitBytes (Bytes.ofNat N) >>= fun _ => pure (.next, ⟨[], locals', store⟩) := by
  obtain ⟨locals₁, hlocals₁, hgrow⟩ := check_growDivisor (M := M) lower upper fits hlimit hlocals
    fuel num₁ (quotient ++ [number 48, arith .add, .op (.call (builtinName env "printc")),
      writeDigits env num₂ digit])
  obtain ⟨locals₂, hdigits⟩ := check_writeDigits lower fits hprintc hdigit hlocals₁ fuel num₂ []
  have hpos : 0 < N / 10 ^ e := Nat.div_pos lower (Nat.pow_pos (by decide))
  have hfirst := first_lt upper
  refine ⟨locals₂, ?_⟩
  rw [hgrow, hquotient hlocals₁, number, arith, Wat.check_number (by decide) (by decide),
    check_ascii hfirst, check_printc hprintc, hdigits, Wat.checkCode_nil,
    Run.emitBytes, decimal_words e hpos, Bytes.ofNat_of_lt hfirst, List.map_singleton,
    digit_word hfirst, Run.emitAll_append]

end Digits

/-! ## Quotients and remainders -/

section Codes

variable {i : Int} {d : Nat} {x : Word}

theorem pushes_div (hx : x = BitVec.ofInt 32 i) (low : -2 ^ 31 ≤ i) (high : i < 2 ^ 31)
    (hd : 0 < (d : Int)) (hd' : (d : Int) < 2 ^ 31) (hlocals : Dividing x d locals) :
    Pushes M [getLocal "$x", getLocal "$div", arith .div] locals (i.tdiv d) := by
  intro stack store rest
  have hdivide := Wat.apply_div low high hd hd'
  rw [← hx] at hdivide
  rw [getLocal, getLocal, arith]
  show checkCode M (_ :: _ :: _ :: rest) _ = _
  rw [Wat.check_localGet hlocals.number, Wat.check_localGet hlocals.divisor,
    Wat.check_arith rfl hdivide]

theorem pushes_rem (hx : x = BitVec.ofInt 32 i) (low : -2 ^ 31 ≤ i) (high : i < 2 ^ 31)
    (hd : 0 < (d : Int)) (hd' : (d : Int) < 2 ^ 31) (hlocals : Dividing x d locals) :
    Pushes M [getLocal "$x", getLocal "$div", arith .rem] locals (i.tmod d) := by
  intro stack store rest
  have hremainder := Wat.apply_rem low high hd hd'
  rw [← hx] at hremainder
  rw [getLocal, getLocal, arith]
  show checkCode M (_ :: _ :: _ :: rest) _ = _
  rw [Wat.check_localGet hlocals.number, Wat.check_localGet hlocals.divisor,
    Wat.check_arith rfl hremainder]

theorem pushes_tenth (hx : x = BitVec.ofInt 32 i) (low : -2 ^ 31 ≤ i) (high : i < 2 ^ 31)
    (hlocals : Dividing x d locals) :
    Pushes M [getLocal "$x", number 10, arith .div] locals (i.tdiv 10) := by
  intro stack store rest
  have hdivide := Wat.apply_div (j := 10) low high (by decide) (by decide)
  rw [← hx] at hdivide
  rw [getLocal, number, arith]
  show checkCode M (_ :: _ :: _ :: rest) _ = _
  rw [Wat.check_localGet hlocals.number, Wat.check_number (by decide) (by decide),
    Wat.check_arith rfl hdivide]

/-- A magnitude, from the number below zero that has it. -/
theorem Pushes.negated {code : Code} {m : Nat} (h : Pushes M code locals (-(m : Int)))
    (high : (m : Int) < 2 ^ 31) : Pushes M (number 0 :: (code ++ [arith .sub])) locals m := by
  intro stack store rest
  have hdifference : Arith.sub.unbounded? 0 (-(m : Int)) = some (m : Int) :=
    congrArg some (by omega)
  rw [List.cons_append, number, Wat.check_number (by decide) (by decide), List.append_assoc, h,
    arith, List.singleton_append,
    Wat.check_exact (by decide) ⟨by omega, by omega⟩ hdifference ⟨by omega, high⟩]

/-- The digit that a remainder begins with. -/
theorem Pushes.digit {code : Code} {k : Nat} (h : Pushes M code locals i) (low : -2 ^ 31 ≤ i)
    (high : i < 2 ^ 31) (hk : k < 9) (hlocals : Dividing x (10 ^ (k + 1)) locals) :
    Pushes M (code ++ [getLocal "$div", number 10, arith .div, arith .div]) locals
      (i.tdiv (10 ^ k : Nat)) := by
  intro stack store rest
  obtain ⟨hlow, -, hhigh⟩ := pow_range (show k + 1 ≤ 9 by omega)
  obtain ⟨-, hpos, hhigh'⟩ := pow_range (show k ≤ 9 by omega)
  have htenth := Wat.apply_div (j := 10) hlow hhigh (by decide) (by decide)
  rw [tenth_pow] at htenth
  rw [List.append_assoc, h, getLocal, number, arith]
  show checkCode M (_ :: _ :: _ :: _ :: rest) _ = _
  rw [Wat.check_localGet hlocals.divisor, Wat.check_number (by decide) (by decide),
    Wat.check_arith rfl htenth, Wat.check_arith rfl (Wat.apply_div low high hpos hhigh')]

/-- The digit at some place is the first one of a remainder. -/
theorem digit_eq (N k : Nat) :
    ((N % 10 ^ (k + 1) : Nat) : Int).tdiv (10 ^ k : Nat) = (N / 10 ^ k % 10 : Nat) := by
  rw [← Int.ofNat_tdiv, Nat.pow_succ, Nat.mod_mul_right_div_self]

end Codes

/-! ## Numbers with a sign -/

section Signs

variable {x : Word} {N : Nat}

theorem exists_exponent (pos : 0 < N) : ∃ e, 10 ^ e ≤ N ∧ N < 10 ^ (e + 1) :=
  ⟨Nat.log 10 N, Nat.pow_log_le_self 10 (by omega), Nat.lt_pow_succ_log_self (by decide) N⟩

theorem check_writePositive (hprintc : WritesChars M env) (fuel : 9 ≤ M.fuel) (pos : 0 < N)
    (fits : N < 2 ^ 31) (hx : x = BitVec.ofInt 32 N) (hlocals : Dividing x 1 locals) :
    ∃ locals', checkCode M (writePositive env) ⟨[], locals, store⟩ =
      Run.emitBytes (Bytes.ofNat N) >>= fun _ => pure (.next, ⟨[], locals', store⟩) := by
  obtain ⟨e, lower, upper⟩ := exists_exponent pos
  have hexponent := exponent_le lower (le_of_lt fits)
  have low : -2 ^ 31 ≤ (N : Int) := by omega
  have high : (N : Int) < 2 ^ 31 := by omega
  have hquotient : ∀ {locals}, Dividing x (10 ^ e) locals →
      Pushes M [getLocal "$x", getLocal "$div", arith .div] locals (N / 10 ^ e : Nat) := by
    intro locals hdiv
    obtain ⟨-, hpos, hhigh⟩ := pow_range hexponent
    exact pushes_div hx low high hpos hhigh hdiv
  have hdigit : ∀ {k locals}, k < e → Dividing x (10 ^ (k + 1)) locals →
      Pushes M ([getLocal "$x", getLocal "$div", arith .rem] ++
        [getLocal "$div", number 10, arith .div, arith .div]) locals (N / 10 ^ k % 10 : Nat) := by
    intro k locals hk hdiv
    obtain ⟨-, hpos, hhigh⟩ := pow_range (show k + 1 ≤ 9 by omega)
    have hmod : N % 10 ^ (k + 1) ≤ N := Nat.mod_le _ _
    have hrem := pushes_rem (M := M) hx low high hpos hhigh hdiv
    rw [← Int.ofNat_tmod] at hrem
    rw [← digit_eq]
    exact hrem.digit (by omega) (by omega) (by omega) hdiv
  exact check_decimal lower upper (le_of_lt fits) hprintc fuel
    (fun hdiv => pushes_tenth hx low high hdiv) hquotient hdigit hlocals store 2 3

theorem check_writeNegative (hprintc : WritesChars M env) (fuel : 9 ≤ M.fuel) (pos : 0 < N)
    (fits : N ≤ 2 ^ 31) (hx : x = BitVec.ofInt 32 (-N)) (hlocals : Dividing x 1 locals) :
    ∃ locals', checkCode M (writeNegative env) ⟨[], locals, store⟩ =
      Run.emitBytes (byte '-' :: Bytes.ofNat N) >>= fun _ =>
        pure (.next, ⟨[], locals', store⟩) := by
  obtain ⟨e, lower, upper⟩ := exists_exponent pos
  have hexponent := exponent_le lower fits
  have low : -2 ^ 31 ≤ -(N : Int) := by omega
  have high : -(N : Int) < 2 ^ 31 := by omega
  have hlimit : ∀ {d locals}, Dividing x d locals →
      Pushes M (number 0 :: ([getLocal "$x", number 10, arith .div] ++ [arith .sub])) locals
        (N / 10 : Nat) := by
    intro d locals hdiv
    have htenth := pushes_tenth (M := M) hx low high hdiv
    rw [Int.neg_tdiv] at htenth
    exact htenth.negated (m := N / 10) (by omega)
  have hquotient : ∀ {locals}, Dividing x (10 ^ e) locals →
      Pushes M (number 0 :: ([getLocal "$x", getLocal "$div", arith .div] ++ [arith .sub])) locals
        (N / 10 ^ e : Nat) := by
    intro locals hdiv
    obtain ⟨-, hpos, hhigh⟩ := pow_range hexponent
    have hfirst := first_lt upper
    have hdivide := pushes_div (M := M) hx low high hpos hhigh hdiv
    rw [Int.neg_tdiv] at hdivide
    exact hdivide.negated (m := N / 10 ^ e) (by omega)
  have hdigit : ∀ {k locals}, k < e → Dividing x (10 ^ (k + 1)) locals →
      Pushes M (number 0 :: ([getLocal "$x", getLocal "$div", arith .rem] ++ [arith .sub]) ++
        [getLocal "$div", number 10, arith .div, arith .div]) locals (N / 10 ^ k % 10 : Nat) := by
    intro k locals hk hdiv
    obtain ⟨-, hpos, hhigh⟩ := pow_range (show k + 1 ≤ 9 by omega)
    have hpow := Nat.pow_le_pow_right (n := 10) (by decide) (show k + 1 ≤ 9 by omega)
    have hmod : N % 10 ^ (k + 1) < 10 ^ (k + 1) := Nat.mod_lt _ (Nat.pow_pos (by decide))
    have hrem := pushes_rem (M := M) hx low high hpos hhigh hdiv
    rw [Int.neg_tmod, ← Int.ofNat_tmod] at hrem
    have hmagnitude := hrem.negated (by omega)
    rw [← digit_eq]
    exact hmagnitude.digit (by omega) (by omega) (by omega) hdiv
  obtain ⟨locals', hdecimal⟩ := check_decimal lower upper fits hprintc fuel hlimit hquotient hdigit
    hlocals store 0 1
  have hsign : Run.emitBytes (byte '-' :: Bytes.ofNat N) =
      Run.emitAll ([BitVec.ofInt 32 45] ++ (Bytes.ofNat N).map fun b => BitVec.ofNat 32 b.toNat) :=
    rfl
  refine ⟨locals', ?_⟩
  show checkCode M (number 45 :: .op (.call (builtinName env "printc")) :: _) _ = _
  rw [number, Wat.check_number (by decide) (by decide), check_printc hprintc, hsign,
    Run.emitAll_append]
  exact congrArg (fun r => Run.emitAll [BitVec.ofInt 32 45] >>= fun _ => r) hdecimal

/-- Leaves an arm of a conditional at the end of code. -/
theorem check_arm {q : Run (Flow × Wat.Config)} {r : Run Unit} {locals' : Bytes → Option Word}
    (h : q = r >>= fun _ => pure (.next, ⟨[], locals', store⟩)) :
    q >>= Wat.leave none [] >>= Wat.afterNext (checkCode M []) =
      r >>= fun _ => pure (.next, ⟨[], locals', store⟩) := by
  rw [Wat.bind_afterNext_check_nil, h, Run.bind_bind]
  rfl

/-- The body of `printi` behind the first assignment. -/
theorem check_printi (hprintc : WritesChars M env) (fuel : 9 ≤ M.fuel)
    (hlocals : Dividing x 1 locals) (store : Store Word) :
    ∃ locals', checkCode M [getLocal "$x", number 0, arith .eq,
        .cond [number 48, .op (.call (builtinName env "printc"))]
          [getLocal "$x", number 0, arith .lt,
            .cond (writeNegative env) (writePositive env)]]
        ⟨[], locals, store⟩ =
      Run.emitBytes (Bytes.ofInt x.toInt) >>= fun _ => pure (.next, ⟨[], locals', store⟩) := by
  obtain ⟨low, high⟩ := Wat.toInt_range x
  have hx : x = BitVec.ofInt 32 x.toInt := BitVec.ofInt_toInt.symm
  have heq := Wat.apply_eq (j := 0) low high (by decide) (by decide)
  have hlt := Wat.apply_lt (j := 0) low high (by decide) (by decide)
  rw [← hx] at heq hlt
  rw [getLocal, number, arith, arith, Wat.check_localGet hlocals.number,
    Wat.check_number (by decide) (by decide), Wat.check_arith rfl heq]
  by_cases hzero : x.toInt = 0
  · refine ⟨locals, ?_⟩
    rw [decide_eq_true hzero, Wat.check_cond (by decide), number,
      Wat.check_number (by decide) (by decide), check_printc hprintc, hzero]
    rfl
  rw [decide_eq_false hzero, show Word.ofBool false = 0 from rfl, Wat.check_cond_zero,
    Wat.check_localGet hlocals.number, Wat.check_number (by decide) (by decide),
    Wat.check_arith rfl hlt]
  by_cases hnegative : x.toInt < 0
  · obtain ⟨N, hN⟩ : ∃ N : Nat, x.toInt = -((N + 1 : Nat) : Int) :=
      ⟨(-x.toInt).toNat - 1, by omega⟩
    have hbytes : Bytes.ofInt x.toInt = byte '-' :: Bytes.ofNat (N + 1) := by
      rw [hN]
      rfl
    rw [hN] at hx
    obtain ⟨locals', hcheck⟩ := check_writeNegative (M := M) hprintc fuel (Nat.succ_pos N)
      (by omega) hx hlocals
    refine ⟨locals', ?_⟩
    rw [decide_eq_true hnegative, Wat.check_cond (by decide), hbytes]
    exact check_arm (check_arm hcheck)
  · obtain ⟨N, hN⟩ : ∃ N : Nat, x.toInt = (N : Int) := ⟨x.toInt.toNat, by omega⟩
    have hbytes : Bytes.ofInt x.toInt = Bytes.ofNat N := by
      rw [hN]
      rfl
    rw [hN] at hx
    obtain ⟨locals', hcheck⟩ := check_writePositive (M := M) hprintc fuel (by omega) (by omega) hx
      hlocals
    refine ⟨locals', ?_⟩
    rw [decide_eq_false hnegative, show Word.ofBool false = 0 from rfl, Wat.check_cond_zero, hbytes]
    exact check_arm (check_arm hcheck)

/-- With some fuel, `printi` writes its argument in decimal, and nothing overflows. -/
theorem printiFunc_check (hprintc : WritesChars M env) (fuel : 9 ≤ M.fuel) (x : Word)
    (store : Store Word) :
    (printiFunc env).check M [x] store =
      thenReturn (Run.emitBytes (Bytes.ofInt x.toInt)) store := by
  let bound := (printiFunc env).bound [x]
  have hdiv : bound (utf8 "$div") = some 0 := rfl
  have hstart : Dividing x 1 (assign bound (utf8 "$div") (BitVec.ofInt 32 1)) :=
    ⟨rfl, assign_self _ _ _⟩
  obtain ⟨locals', hcheck⟩ := check_printi hprintc fuel hstart store
  have hbody : checkCode M (printiFunc env).body ⟨[], bound, store⟩ =
      Run.emitBytes (Bytes.ofInt x.toInt) >>= fun _ => pure (.next, ⟨[], locals', store⟩) := by
    show checkCode M (number 1 :: setLocal "$div" :: _) _ = _
    rw [number, setLocal, Wat.check_number (by decide) (by decide), Wat.check_localSet hdiv]
    exact hcheck
  rw [Wat.Func.check, hbody, Run.bind_bind]
  rfl

/-- So it does when it is run plainly. -/
theorem printiFunc_run (hprintc : WritesChars M env) (fuel : 9 ≤ M.fuel) (x : Word)
    (store : Store Word) :
    (printiFunc env).run M [x] store =
      thenReturn (Run.emitBytes (Bytes.ofInt x.toInt)) store := by
  have hcheck := printiFunc_check hprintc fuel x store
  rcases (printiFunc env).check_confirms [x] store with hwrong | hsame
  · rw [hcheck] at hwrong
    cases hwrong
  · rw [← hsame, hcheck]

/-- For every number, `printi` ends without a trap, and calls `printc` with the codes of
the canonical decimal form of the number, in order.  No sum, difference or product on the
way overflows: the checked run does the same. -/
theorem printi_writes_decimal (M : Machine) (env : Env) (hprintc : WritesChars M env)
    (fuel : 9 ≤ M.fuel) (x : Word) (store : Store Word) :
    ∃ text, Bytes.IsDecimal x.toInt text ∧
      (printiFunc env).run M [x] store =
        ⟨text.map fun b => BitVec.ofNat 32 b.toNat, .ok (none, store)⟩ ∧
      (printiFunc env).check M [x] store = (printiFunc env).run M [x] store := by
  have hcheck := printiFunc_check hprintc fuel x store
  have hrun := printiFunc_run hprintc fuel x store
  refine ⟨Bytes.ofInt x.toInt, Bytes.isDecimal_iff.mpr rfl, ?_, hcheck.trans hrun.symm⟩
  rw [hrun, thenReturn, Run.emitBytes, Run.emitAll, Run.ok_bind, Run.pure_eq, List.append_nil]

/-- The least number has no negation, and is written like the others. -/
theorem printi_writes_least :
    let env : Env := ⟨.initial, false⟩
    let M : Machine := ⟨fun _ => none, fun _ => some Wat.putchar, 9⟩
    WritesChars M env ∧ 9 ≤ M.fuel ∧ ∀ store,
      (printiFunc env).check M [BitVec.intMin 32] store =
        ⟨(utf8 "-2147483648").map fun b => BitVec.ofNat 32 b.toNat, .ok (none, store)⟩ := by
  intro env M
  have hprintc : WritesChars M env := rfl
  refine ⟨hprintc, le_refl 9, ?_⟩
  intro store
  obtain ⟨text, hdecimal, hrun, hsame⟩ :=
    printi_writes_decimal M env hprintc (le_refl 9) (BitVec.intMin 32) store
  have htext : text = utf8 "-2147483648" := by
    rw [Bytes.isDecimal_iff.mp hdecimal]
    decide
  rw [hsame, hrun, htext]

end Signs

end TreeWat.Lower
