import TreeWat.Proofs.Lower.Behaviour
import TreeWat.Proofs.Lower.Layout
set_option autoImplicit false

/-!
# Lower: the bytes that the runtime library writes

`prints` hands the bytes of a stretch of memory to `printc`, whatever this does with them,
and starts its loop no more often than there are bytes.  In the memory of a module every
literal lies where it was laid out, so that the two words of `printb` lie where it looks
for them.
-/

namespace TreeWat

namespace Wat

/-! ## Calls with one byte after the other -/

/-- Calls a function with each of the bytes in turn, extended by zeros to a number. -/
def callEach (f : Callable) : Bytes → Store Word → Run (Store Word)
  | [], store => pure store
  | b :: rest, store => f.run [BitVec.ofNat 32 b.toNat] store >>= fun p => callEach f rest p.2

/-- A function that comes to its end whenever it is called does so for all bytes. -/
theorem callEach_ends {f : Callable} (ends : ∀ w store, ∃ p, (f.run [w] store).res = .ok p)
    (bytes : Bytes) (store : Store Word) : ∃ store', (callEach f bytes store).res = .ok store' := by
  induction bytes generalizing store with
  | nil => exact ⟨store, rfl⟩
  | cons b rest ih =>
    obtain ⟨p, hp⟩ := ends (BitVec.ofNat 32 b.toNat) store
    obtain ⟨store', hrest⟩ := ih p.2
    exact ⟨store', Run.bind_res_eq_ok.mpr ⟨p, hp, hrest⟩⟩

theorem callEach_putchar (bytes : Bytes) (store : Store Word) :
    callEach putchar bytes store = ⟨bytes.map fun b => BitVec.ofNat 32 b.toNat, .ok store⟩ := by
  induction bytes with
  | nil => rfl
  | cons b rest ih =>
    have hfirst : putchar.run [BitVec.ofNat 32 b.toNat] store =
        ⟨[BitVec.ofNat 32 b.toNat], .ok (none, store)⟩ := rfl
    rw [callEach, hfirst, Run.ok_bind, ih, List.map_cons, List.singleton_append]

/-! ## Literals in the memory of a module -/

/-- Data is copied where it says, if it is well written and fits. -/
theorem Data.copy?_eq_some {size : Nat} {before memory : Nat → Option UInt8} {place : Nat}
    {text : Bytes} (h : Data.copy? size before ⟨place, text⟩ = some memory) :
    ∃ bytes, decodeText text = some bytes ∧ memory = copyTo place bytes before := by
  unfold Data.copy? at h
  cases htext : decodeText text with
  | none =>
    simp only [htext] at h
    cases h
  | some bytes =>
    simp only [htext] at h
    split at h
    · exact ⟨bytes, rfl, (Option.some.inj h).symm⟩
    · cases h

/-- Literals that were laid out from a place on and copied to memory lie there, each at its
own place, and leave alone what is below. -/
theorem layOut_copied {lits : List Bytes} {size place : Nat} {before memory : Nat → Option UInt8}
    (copied : (layOut (fun place raw => (⟨place, escapeLiteral raw⟩ : Data)) place lits).foldlM
      (Data.copy? size) before = some memory) :
    (∀ a, a < place → memory a = before a) ∧
      ∀ i raw, lits[i]? = some raw → ∃ bytes, Source.literalBytes? raw = some bytes ∧
        MemoryHolds memory (place + offsetOf lits i) bytes := by
  induction lits generalizing place before with
  | nil =>
    cases copied
    exact ⟨fun _ _ => rfl, fun _ _ h => by cases h⟩
  | cons raw rest ih =>
    rw [layOut, List.foldlM_cons, Option.bind_eq_bind, Option.bind_eq_some_iff] at copied
    obtain ⟨between, hfirst, hothers⟩ := copied
    obtain ⟨bytes, htext, rfl⟩ := Data.copy?_eq_some hfirst
    obtain ⟨hbelow, hheld⟩ := ih hothers
    have hbytes : Source.literalBytes? raw = some bytes := by rw [← decodeText_escapeLiteral, htext]
    have hlength := Source.literalBytes?_length hbytes
    constructor
    · intro a ha
      have houtside : ¬ (place ≤ a ∧ a < place + bytes.length) := by omega
      rw [hbelow a (by omega), copyTo, if_neg houtside]
    · intro i raw' hraw
      cases i with
      | zero =>
        cases hraw
        refine ⟨bytes, hbytes, ?_⟩
        intro j hj
        rw [hbelow _ (by simp only [offsetOf, List.take_zero, List.map_nil, List.sum_nil]; omega)]
        exact copyTo_holds place bytes before j hj
      | succ i =>
        obtain ⟨bytes', hbytes', hholds⟩ := hheld i raw' hraw
        rw [offsetOf_cons_succ, ← Nat.add_assoc]
        exact ⟨bytes', hbytes', hholds⟩

end Wat

namespace Lower

open Wat (Op Machine Callable MemoryHolds callEach)

/-! ## Text in memory -/

theorem callRange_holds {f : Callable} {memory : Nat → Option UInt8} {bytes : Bytes} {offset : Nat}
    (holds : MemoryHolds memory offset bytes) (fits : offset + bytes.length < 2 ^ 32)
    (store : Store Word) :
    callRange f memory bytes.length (BitVec.ofNat 32 offset) store = callEach f bytes store := by
  induction bytes generalizing offset store with
  | nil => rfl
  | cons b rest ih =>
    rw [List.length_cons] at fits
    obtain ⟨hfirst, hothers⟩ := memoryHolds_cons holds (by omega)
    have hnext : BitVec.ofNat 32 offset + 1 = BitVec.ofNat 32 (offset + 1) :=
      (BitVec.ofNat_add offset 1).symm
    rw [List.length_cons, callRange, hfirst, hnext, callEach]
    exact Run.bind_congr fun p _ => ih hothers (by omega) p.2

/-- Of a text that lies in memory, `prints` calls `printc` with each byte in turn. -/
theorem printsFunc_text {env : Env} {M : Machine} {f : Callable}
    (hprintc : TakesNumber M (builtinName env "printc") f) {bytes : Bytes} {start : Nat}
    (holds : MemoryHolds M.memory start bytes) (fits : start + bytes.length < 2 ^ 31)
    (fuel : bytes.length < M.fuel) (store : Store Word) :
    (printsFunc env).run M [BitVec.ofNat 32 start, BitVec.ofNat 32 bytes.length] store =
      callEach f bytes store >>= fun store' => pure (none, store') := by
  have hdistance := distance_ofNat fits
  rw [printsFunc_calls hprintc _ _ (by rwa [hdistance]), hdistance,
    callRange_holds holds (by omega)]

/-! ## The words of truth values -/

section Words

variable {root : Node} {checked : Check.CheckedProgram} {debug : Bool} {m : Wat.Module Op}
  {memory : Nat → Option UInt8}

/-- The words of the library lie at the start of memory. -/
theorem words_held (accepted : Check.checkProgram root = .ok checked)
    (hprogram : program ⟨checked.scopes, debug⟩ checked.tree = .ok m)
    (hmemory : m.memory? = some memory) :
    MemoryHolds memory 0 (utf8 "true") ∧ MemoryHolds memory 4 (utf8 "false") := by
  obtain ⟨m', hprogram', hdata, -⟩ := layOut_of_checkProgram accepted debug
  obtain rfl : m' = m := Except.ok.inj (hprogram'.symm.trans hprogram)
  unfold Wat.Module.memory? at hmemory
  rw [hdata] at hmemory
  obtain ⟨-, hheld⟩ := Wat.layOut_copied hmemory
  obtain ⟨yes, hyes, holdsYes⟩ := hheld 0 (utf8 "true") rfl
  obtain ⟨no, hno, holdsNo⟩ := hheld 1 (utf8 "false") rfl
  have htrue : Source.literalBytes? (utf8 "true") = some (utf8 "true") := by decide
  have hfalse : Source.literalBytes? (utf8 "false") = some (utf8 "false") := by decide
  rw [htrue] at hyes
  rw [hfalse] at hno
  cases hyes
  cases hno
  exact ⟨holdsYes, holdsNo⟩

theorem callee_printb (memory : Nat → Option UInt8) (funcs : List (Wat.Func Op)) (n : Nat) :
    Wat.callees memory host (library ++ funcs) (n + 1) (libraryName (utf8 "printb")) =
      some ⟨1, (printbFunc ⟨.initial, false⟩ (0, 4) (4, 5)).run
        ⟨memory, Wat.callees memory host (library ++ funcs) n, n⟩⟩ := rfl

theorem printbMeaning_words (holdsYes : MemoryHolds memory 0 (utf8 "true"))
    (holdsNo : MemoryHolds memory 4 (utf8 "false")) (b : Word) :
    printbMeaning memory b = Run.emitBytes (if b = 0 then utf8 "false" else utf8 "true") := by
  have hzero : BitVec.ofInt 32 (0 : Nat) = 0 := by decide
  have hfour : BitVec.ofInt 32 (4 : Nat) = 4 := by decide
  have hfive : BitVec.ofInt 32 (5 : Nat) = 5 := by decide
  have hyes := printsMeaning_holds holdsYes (by decide)
  have hno := printsMeaning_holds holdsNo (by decide)
  rw [show (utf8 "true").length = 4 from rfl, hzero, hfour] at hyes
  rw [show (utf8 "false").length = 5 from rfl, hfour, hfive] at hno
  rw [printbMeaning, hyes, hno, apply_ite Run.emitBytes]

/-- Where the two words lie in memory, `printb` writes the one that its argument says. -/
theorem printb_writes (funcs : List (Wat.Func Op)) {n : Nat} (fuel : 8 ≤ n)
    (holdsYes : MemoryHolds memory 0 (utf8 "true"))
    (holdsNo : MemoryHolds memory 4 (utf8 "false")) (b : Word) (store : Store Word) :
    ∃ f, Wat.callees memory host (library ++ funcs) n (libraryName (utf8 "printb")) = some f ∧
      f.params = 1 ∧ f.run [b] store =
        thenReturn (Run.emitBytes (if b = 0 then utf8 "false" else utf8 "true")) store := by
  obtain ⟨n, rfl⟩ : ∃ k, n = k + 2 := ⟨n - 2, by omega⟩
  have hprintc : PrintsChars ⟨memory, Wat.callees memory host (library ++ funcs) n, n⟩ :=
    callee_printc n
  have hfour : distance 0 (0 + 4) < n := by
    have hdistance : distance 0 (0 + 4) = 4 := by decide
    omega
  have hfive : distance 4 (4 + 5) < n := by
    have hdistance : distance 4 (4 + 5) = 5 := by decide
    omega
  have hyes := printsFunc_run hprintc hfour store
  have hno := printsFunc_run hprintc hfive store
  refine ⟨_, callee_printb memory funcs (n + 1), rfl, ?_⟩
  rw [← printbMeaning_words holdsYes holdsNo b]
  exact printbFunc_run (callee_prints n) rfl hyes hno b

end Words

/-- Whatever function stands behind `printc`, and whatever is in memory, `prints` calls it
with the bytes of the stretch it is given, in order and each once, and then returns; it
stops before its end only if `printc` does.  In the module of every program that passed
the checker, with its data copied to memory, `printb` writes the word of a truth value. -/
theorem library_writes :
    (∀ (env : Env) (M : Machine) (f : Callable) (bytes : Bytes) (start : Nat) (store : Store Word),
      TakesNumber M (builtinName env "printc") f → MemoryHolds M.memory start bytes →
      start + bytes.length < 2 ^ 31 → bytes.length < M.fuel →
      (printsFunc env).run M [BitVec.ofNat 32 start, BitVec.ofNat 32 bytes.length] store =
          (callEach f bytes store >>= fun store' => pure (none, store')) ∧
        ((∀ w store, ∃ p, (f.run [w] store).res = .ok p) →
          ∃ store', ((printsFunc env).run M
            [BitVec.ofNat 32 start, BitVec.ofNat 32 bytes.length] store).res =
              .ok (none, store'))) ∧
    ∀ (root : Node) (checked : Check.CheckedProgram) (debug : Bool) (m : Wat.Module Op)
      (memory : Nat → Option UInt8) (n : Nat) (b : Word) (store : Store Word),
      Check.checkProgram root = .ok checked →
      program ⟨checked.scopes, debug⟩ checked.tree = .ok m → m.memory? = some memory → 8 ≤ n →
      ∃ f, Wat.callees memory m.imported m.funcs n (libraryName (utf8 "printb")) = some f ∧
        f.params = 1 ∧
        f.run [b] store =
          ⟨(if b = 0 then utf8 "false" else utf8 "true").map fun c => BitVec.ofNat 32 c.toNat,
            .ok (none, store)⟩ := by
  constructor
  · intro env M f bytes start store hprintc holds fits fuel
    have hrun := printsFunc_text hprintc holds fits fuel store
    refine ⟨hrun, ?_⟩
    intro ends
    obtain ⟨store', hcalls⟩ := Wat.callEach_ends ends bytes store
    rw [hrun]
    exact ⟨store', Run.bind_res_eq_ok.mpr ⟨store', hcalls, rfl⟩⟩
  · intro root checked debug m memory n b store accepted hprogram hmemory fuel
    obtain ⟨holdsYes, holdsNo⟩ := words_held accepted hprogram hmemory
    obtain ⟨m', s, hmodule, hcode⟩ := moduleCode_of_checkProgram accepted debug
    obtain rfl : m' = m := Except.ok.inj ((program_ok hmodule).symm.trans hprogram)
    obtain ⟨funcs, hfuncs⟩ := hcode.funcs_eq
    rw [hcode.imported_eq, hfuncs]
    obtain ⟨f, hf, hparams, hrun⟩ := printb_writes funcs fuel holdsYes holdsNo b store
    refine ⟨f, hf, hparams, hrun.trans ?_⟩
    rw [thenReturn, Run.emitBytes, Run.emitAll, Run.ok_bind, Run.pure_eq, List.append_nil]

/-- The last two bytes below half of the address space are written, one of them with its
highest bit set, and the module of the sample program has a `printb` that takes seven for
true. -/
theorem library_writes_sample :
    (∀ store, (printsFunc ⟨.initial, false⟩).run
        ⟨fun a => if a = 2 ^ 31 - 3 then some 65 else some 255, fun _ => some Wat.putchar, 3⟩
        [BitVec.ofNat 32 (2 ^ 31 - 3), BitVec.ofNat 32 2] store =
      ⟨[65, 255], .ok (none, store)⟩) ∧
    ∃ checked m memory, Check.checkProgram sampleProgram = .ok checked ∧
      program ⟨checked.scopes, true⟩ checked.tree = .ok m ∧ m.memory? = some memory ∧
      ∀ store, ∃ f, Wat.callees memory m.imported m.funcs 8 (libraryName (utf8 "printb")) = some f ∧
        f.params = 1 ∧ f.run [7] store = ⟨[116, 114, 117, 101], .ok (none, store)⟩ := by
  constructor
  · intro store
    have hprintc : TakesNumber
        ⟨fun a => if a = 2 ^ 31 - 3 then some 65 else some 255, fun _ => some Wat.putchar, 3⟩
        (builtinName ⟨.initial, false⟩ "printc") Wat.putchar :=
      PrintsChars.takesNumber rfl
    have holds : MemoryHolds (fun a => if a = 2 ^ 31 - 3 then some 65 else some 255)
        (2 ^ 31 - 3) [65, 255] := by
      intro i hi
      match i, hi with
      | 0, _ => rfl
      | 1, _ => rfl
    obtain ⟨hrun, -⟩ := library_writes.1 ⟨.initial, false⟩ _ _ [65, 255] (2 ^ 31 - 3) store
      hprintc holds (by decide) (by decide)
    refine hrun.trans ?_
    rw [Wat.callEach_putchar]
    rfl
  · obtain ⟨checked, accepted⟩ := sampleProgram_accepted
    obtain ⟨m, s, hmodule, hcode⟩ := moduleCode_of_checkProgram accepted true
    have hprogram := program_ok hmodule
    have small : s.literals.size < 2 ^ 31 := by
      rw [sampleProgram_literals accepted hmodule]
      decide
    obtain ⟨memory, hmemory, -⟩ := hcode.memory sampleProgram_printed small
    refine ⟨checked, m, memory, accepted, hprogram, hmemory, ?_⟩
    intro store
    exact library_writes.2 sampleProgram checked true m memory 8 7 store accepted hprogram
      hmemory (le_refl 8)

end Lower

end TreeWat
