import TreeWat.Proofs.Lower.Code
import TreeWat.Proofs.Source
import TreeWat.Proofs.Wat.Arithmetic
set_option autoImplicit false

/-!
# Lower: the runtime library writes what it should

With enough fuel, `prints` writes the bytes of memory between two addresses, `printi`
writes the decimal form of its argument, the least number included, and `printb` writes
one of two words.  The library is proved once, for arbitrary arguments, and stands for
these meanings in what is proved about programs.
-/

namespace TreeWat.Lower

open Wat (Code Op Arith Instr Machine Callable Flow execCode)

variable {M : Machine} {locals : Bytes → Option Word} {store : Store Word} {stack : List Word}
  {rest : Code}

/-- The machine's `printc` is the host's. -/
def PrintsChars (M : Machine) : Prop :=
  M.callee (libraryName (utf8 "printc")) = some Wat.putchar

/-- Under the name the machine calls a function that takes one number and, if it returns,
returns nothing. -/
structure TakesNumber (M : Machine) (name : Bytes) (f : Callable) : Prop where
  callee : M.callee name = some f
  params : f.params = 1
  silent : ∀ w store result store', (f.run [w] store).res = .ok (result, store') → result = none

theorem PrintsChars.takesNumber (h : PrintsChars M) :
    TakesNumber M (libraryName (utf8 "printc")) Wat.putchar := by
  refine ⟨h, rfl, ?_⟩
  intro w store result store' hres
  cases hres
  rfl

theorem TakesNumber.exec {name : Bytes} {f : Callable} (h : TakesNumber M name f) {w : Word} :
    execCode M (.op (.call name) :: rest) ⟨w :: stack, locals, store⟩ =
      f.run [w] store >>= fun p => execCode M rest ⟨stack, locals, p.2⟩ := by
  have hcall : execCode M (.op (.call name) :: rest) ⟨[w].reverse ++ stack, locals, store⟩ = _ :=
    Wat.exec_call h.callee h.params
  refine hcall.trans (Run.bind_congr ?_)
  intro p hres
  obtain ⟨result, store'⟩ := p
  rw [h.silent w store result store' hres]
  rfl

/-! ## Bytes of memory -/

/-- Writes so many bytes of memory, from an address on. -/
def writeRange (memory : Nat → Option UInt8) : Nat → Word → Run Unit
  | 0, _ => pure ()
  | n + 1, start =>
    match memory start.toNat with
    | some b => Run.emitAll [BitVec.ofNat 32 b.toNat] >>= fun _ => writeRange memory n (start + 1)
    | none => .stop .address

/-- Calls with so many bytes of memory one after the other, from an address on. -/
def callRange (f : Callable) (memory : Nat → Option UInt8) :
    Nat → Word → Store Word → Run (Store Word)
  | 0, _, store => pure store
  | n + 1, start, store =>
    match memory start.toNat with
    | some b =>
      f.run [BitVec.ofNat 32 b.toNat] store >>= fun p => callRange f memory n (start + 1) p.2
    | none => .stop .address

theorem callRange_putchar (memory : Nat → Option UInt8) (n : Nat) (start : Word)
    (store : Store Word) :
    callRange Wat.putchar memory n start store =
      writeRange memory n start >>= fun _ => pure store := by
  induction n generalizing start with
  | zero => rfl
  | succ n ih =>
    rw [callRange, writeRange]
    cases memory start.toNat with
    | none => rfl
    | some b =>
      rw [Run.bind_bind]
      exact congrArg (Run.emitAll _ >>= ·) (funext fun _ => ih (start + 1))

/-- How many bytes lie from one address up to another. -/
def distance (start stop : Word) : Nat :=
  (stop.toInt - start.toInt).toNat

/-- The loop of `prints`, among a `printc` of the given name. -/
def printsLoop (printc : Bytes) : Code :=
  [getLocal "$start", getLocal "$end", arith .ge, .op (.brIf (utf8 "$b0")),
    getLocal "$start", .op .load8, .op (.call printc),
    getLocal "$start", number 1, arith .add, setLocal "$start",
    .op (.br (utf8 "$l0"))]

theorem toInt_succ {start stop : Word} (h : start.toInt < stop.toInt) :
    (start + 1).toInt = start.toInt + 1 := by
  have hstart := Wat.toInt_range start
  have hstop := Wat.toInt_range stop
  have hsum := BitVec.ofInt_add (n := 32) start.toInt 1
  rw [BitVec.ofInt_toInt] at hsum
  have hone : BitVec.ofInt 32 1 = 1 := by decide
  rw [hone] at hsum
  rw [← hsum]
  exact Wat.toInt_ofInt (by omega) (by omega)

/-- The loop of `prints` calls with the bytes up to the end and leaves by a branch. -/
theorem repeat_printsLoop {printc : Bytes} {f : Callable} (hprintc : TakesNumber M printc f)
    {stop : Word} (count : Nat) {start : Word}
    {locals : Bytes → Option Word} (hstart : locals (utf8 "$start") = some start)
    (hstop : locals (utf8 "$end") = some stop) (hcount : distance start stop = count) {n : Nat}
    (fuel : count < n) :
    ∃ locals', ∀ store,
      Wat.repeatLoop (utf8 "$l0") (execCode M (printsLoop printc)) n ⟨[], locals, store⟩ =
        callRange f M.memory count start store >>= fun store' =>
          pure (.branch (utf8 "$b0"), ⟨[], locals', store'⟩) := by
  induction count generalizing start locals n with
  | zero =>
    obtain ⟨n, rfl⟩ : ∃ m, n = m + 1 := ⟨n - 1, by omega⟩
    have hge : Arith.ge.apply start stop = some 1 := by
      have hend : stop.sle start = true := BitVec.sle_iff_toInt_le.mpr (by
        unfold distance at hcount
        omega)
      rw [Arith.apply, hend]
      rfl
    refine ⟨locals, fun store => ?_⟩
    rw [Wat.repeatLoop, printsLoop, getLocal, getLocal, arith, Wat.exec_localGet hstart,
      Wat.exec_localGet hstop, Wat.exec_arith hge, Wat.exec_brIf (by decide)]
    rfl
  | succ count ih =>
    obtain ⟨n, rfl⟩ : ∃ m, n = m + 1 := ⟨n - 1, by omega⟩
    have hlt : start.toInt < stop.toInt := by
      unfold distance at hcount
      omega
    have hge : Arith.ge.apply start stop = some 0 := by
      have hmore : stop.sle start = false := by
        rw [Bool.eq_false_iff, ne_eq, BitVec.sle_iff_toInt_le]
        omega
      rw [Arith.apply, hmore]
      rfl
    cases hmemory : M.memory start.toNat with
    | none =>
      refine ⟨locals, fun store => ?_⟩
      rw [Wat.repeatLoop, printsLoop, getLocal, getLocal, arith, Wat.exec_localGet hstart,
        Wat.exec_localGet hstop, Wat.exec_arith hge, Wat.exec_brIf_zero, Wat.exec_localGet hstart,
        Wat.exec_load8_address hmemory, callRange, hmemory]
      rfl
    | some b =>
      have hnext : distance (start + 1) stop = count := by
        unfold distance at hcount ⊢
        rw [toInt_succ hlt]
        omega
      have hadd : Arith.add.apply start (BitVec.ofInt 32 1) = some (start + 1) := rfl
      have hstart' : assign locals (utf8 "$start") (start + 1) (utf8 "$start") =
          some (start + 1) := assign_self _ _ _
      have hstop' : assign locals (utf8 "$start") (start + 1) (utf8 "$end") = some stop :=
        (assign_of_ne (by decide)).trans hstop
      obtain ⟨locals', hrepeat⟩ := ih hstart' hstop' hnext (n := n) (by omega)
      refine ⟨locals', fun store => ?_⟩
      rw [Wat.repeatLoop, printsLoop, getLocal, getLocal, arith, Wat.exec_localGet hstart,
        Wat.exec_localGet hstop, Wat.exec_arith hge, Wat.exec_brIf_zero, Wat.exec_localGet hstart,
        Wat.exec_load8 hmemory, hprintc.exec, callRange, hmemory, Run.bind_bind, Run.bind_bind]
      refine Run.bind_congr fun p _ => ?_
      rw [Wat.exec_localGet hstart, number,
        Wat.exec_number (by decide) (by decide), arith, Wat.exec_arith hadd, setLocal,
        Wat.exec_localSet hstart, Wat.exec_br, Run.done_bind]
      simp only [if_true]
      exact hrepeat p.2

/-- With enough fuel, `prints` calls with the bytes of memory. -/
theorem printsFunc_calls {env : Env} {f : Callable}
    (hprintc : TakesNumber M (builtinName env "printc") f) (start length : Word)
    (fuel : distance start (start + length) < M.fuel) (store : Store Word) :
    (printsFunc env).run M [start, length] store =
      callRange f M.memory (distance start (start + length)) start store >>= fun store' =>
        pure (none, store') := by
  have hadd : Arith.add.apply start length = some (start + length) := rfl
  let bound := (printsFunc env).bound [start, length]
  have hstart : bound (utf8 "$start") = some start := rfl
  have hlength : bound (utf8 "$length") = some length := rfl
  have hend : bound (utf8 "$end") = some 0 := rfl
  obtain ⟨locals', hloop⟩ := repeat_printsLoop hprintc
    (distance start (start + length))
    ((assign_of_ne (by decide)).trans hstart) (assign_self bound (utf8 "$end") (start + length))
    rfl fuel
  have hbody : execCode M (printsFunc env).body ⟨[], bound, store⟩ =
      callRange f M.memory (distance start (start + length)) start store >>= fun store' =>
        pure (.next, ⟨[], locals', store'⟩) := by
    show execCode M [getLocal "$start", getLocal "$length", arith .add, setLocal "$end",
      .block (utf8 "$b0") [.loop (utf8 "$l0") (printsLoop (builtinName env "printc"))]] _ = _
    rw [getLocal, getLocal, arith, setLocal, Wat.exec_localGet hstart, Wat.exec_localGet hlength,
      Wat.exec_arith hadd, Wat.exec_localSet hend, Wat.exec_block, Wat.bind_afterNext_nil,
      Wat.exec_loop, Wat.bind_afterNext_nil, hloop, Run.bind_bind]
    rfl
  rw [Wat.Func.run, hbody, Run.bind_bind]
  rfl

/-- What `prints` does. -/
def printsMeaning (memory : Nat → Option UInt8) (start length : Word) : Run Unit :=
  writeRange memory (distance start (start + length)) start

/-- Ends a function that returns nothing. -/
def thenReturn (r : Run Unit) (store : Store Word) : Run (Option Word × Store Word) :=
  r >>= fun _ => pure (none, store)

theorem distance_lt (start stop : Word) : distance start stop < 2 ^ 32 := by
  have hstart := Wat.toInt_range start
  have hstop := Wat.toInt_range stop
  unfold distance
  omega

/-- With enough fuel, `prints` writes the bytes of memory. -/
theorem printsFunc_run (hprintc : PrintsChars M) {start length : Word}
    (fuel : distance start (start + length) < M.fuel) (store : Store Word) :
    (printsFunc ⟨.initial, false⟩).run M [start, length] store =
      thenReturn (printsMeaning M.memory start length) store := by
  rw [printsFunc_calls hprintc.takesNumber start length fuel store, callRange_putchar,
    Run.bind_bind]
  rfl

/-! ## Truth values -/

/-- What `printb` does. -/
def printbMeaning (memory : Nat → Option UInt8) (b : Word) : Run Unit :=
  if b = 0 then printsMeaning memory 4 5 else printsMeaning memory 0 4

/-- An arm of `printb`. -/
theorem exec_printb_arm {f : Callable} (callee : M.callee (libraryName (utf8 "prints")) = some f)
    (hparams : f.params = 2) {r : Run Unit} {i j : Int}
    (hrun : f.run [BitVec.ofInt 32 i, BitVec.ofInt 32 j] store = thenReturn r store)
    (lowI : -2 ^ 31 ≤ i) (highI : i < 2 ^ 32) (lowJ : -2 ^ 31 ≤ j) (highJ : j < 2 ^ 32) :
    execCode M [number i, number j, .op (.call (libraryName (utf8 "prints")))]
        ⟨[], locals, store⟩ >>= Wat.leave none [] >>= Wat.afterNext (execCode M []) =
      r >>= fun _ => pure (.next, ⟨[], locals, store⟩) := by
  have hcall : ∀ start length, execCode M [.op (.call (libraryName (utf8 "prints")))]
      ⟨[start, length].reverse ++ [], locals, store⟩ = _ :=
    fun start length => Wat.exec_call callee hparams
  rw [Wat.bind_afterNext_nil, number, number, Wat.exec_number lowI highI,
    Wat.exec_number lowJ highJ]
  show execCode M _ ⟨[BitVec.ofInt 32 i, BitVec.ofInt 32 j].reverse ++ [], locals, store⟩ >>= _ = _
  rw [hcall, hrun, thenReturn, Run.bind_bind, Run.bind_bind]
  rfl

/-- If its `prints` writes the bytes of memory, `printb` writes one of the two words. -/
theorem printbFunc_run {f : Callable} (callee : M.callee (libraryName (utf8 "prints")) = some f)
    (hparams : f.params = 2)
    (hyes : f.run [0, 4] store = thenReturn (printsMeaning M.memory 0 4) store)
    (hno : f.run [4, 5] store = thenReturn (printsMeaning M.memory 4 5) store) (b : Word) :
    (printbFunc ⟨.initial, false⟩ (0, 4) (4, 5)).run M [b] store =
      thenReturn (printbMeaning M.memory b) store := by
  let bound := (printbFunc ⟨.initial, false⟩ (0, 4) (4, 5)).bound [b]
  have hb : bound (utf8 "$b") = some b := rfl
  have hbody : execCode M (printbFunc ⟨.initial, false⟩ (0, 4) (4, 5)).body ⟨[], bound, store⟩ =
      printbMeaning M.memory b >>= fun _ => pure (.next, ⟨[], bound, store⟩) := by
    show execCode M [getLocal "$b", .cond
      [number 0, number 4, .op (.call (libraryName (utf8 "prints")))]
      [number 4, number 5, .op (.call (libraryName (utf8 "prints")))]] _ = _
    rw [getLocal, Wat.exec_localGet hb, printbMeaning]
    by_cases hzero : b = 0
    · subst hzero
      rw [Wat.exec_cond_zero, if_pos rfl]
      exact exec_printb_arm callee hparams hno (by decide) (by decide) (by decide) (by decide)
    · rw [Wat.exec_cond hzero, if_neg hzero]
      exact exec_printb_arm callee hparams hyes (by decide) (by decide) (by decide) (by decide)
  rw [Wat.Func.run, hbody, Run.bind_bind]
  rfl

end TreeWat.Lower
