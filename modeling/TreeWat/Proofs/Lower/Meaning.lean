import TreeWat.Proofs.Lower.Decimal
import TreeWat.Proofs.Lower.Literals
import TreeWat.Proofs.Lower.Printing
set_option autoImplicit false

/-!
# Lower: the runtime library may be replaced by what it does

A function of the library takes fuel, and so does not do the same as the call in the
source program that it serves, which takes none.  `meant` are the callees of a module in
which `prints`, `printi` and `printb` have been replaced by what they do at once.  A
module among them ends as it does among its own callees, given more fuel, and the other
way round.
-/

namespace TreeWat.Lower

open Wat (Op Machine Callable CalleesExtend MemoryHolds)

/-! ## Text in memory -/

theorem emitBytes_cons (b : UInt8) (bs : Bytes) :
    Run.emitBytes (b :: bs) =
      Run.emitAll [BitVec.ofNat 32 b.toNat] >>= fun _ => Run.emitBytes bs := rfl

/-- The first byte of a text in memory, and the text behind it. -/
theorem memoryHolds_cons {memory : Nat → Option UInt8} {b : UInt8} {rest : Bytes} {offset : Nat}
    (holds : MemoryHolds memory offset (b :: rest)) (fits : offset < 2 ^ 32) :
    memory (BitVec.ofNat 32 offset).toNat = some b ∧ MemoryHolds memory (offset + 1) rest := by
  constructor
  · rw [BitVec.toNat_ofNat, Nat.mod_eq_of_lt fits]
    exact holds 0 (Nat.succ_pos _)
  · intro i hi
    rw [Nat.add_right_comm]
    exact holds (i + 1) (Nat.succ_lt_succ hi)

theorem writeRange_holds {memory : Nat → Option UInt8} {bytes : Bytes} {offset : Nat}
    (holds : MemoryHolds memory offset bytes) (fits : offset + bytes.length < 2 ^ 32) :
    writeRange memory bytes.length (BitVec.ofNat 32 offset) = Run.emitBytes bytes := by
  induction bytes generalizing offset with
  | nil => rfl
  | cons b rest ih =>
    rw [List.length_cons] at fits
    obtain ⟨hfirst, hothers⟩ := memoryHolds_cons holds (by omega)
    have hnext : BitVec.ofNat 32 offset + 1 = BitVec.ofNat 32 (offset + 1) :=
      (BitVec.ofNat_add offset 1).symm
    rw [List.length_cons, writeRange, hfirst, hnext, ih hothers (by omega), emitBytes_cons]

/-- A stretch below half of the address space is as long as it says. -/
theorem distance_ofNat {start length : Nat} (fits : start + length < 2 ^ 31) :
    distance (BitVec.ofNat 32 start) (BitVec.ofNat 32 start + BitVec.ofNat 32 length) = length := by
  have htoInt : ∀ n : Nat, n < 2 ^ 31 → (BitVec.ofNat 32 n).toInt = n :=
    fun n hn => Wat.toInt_ofInt (i := n) (by omega) (by omega)
  rw [distance, ← BitVec.ofNat_add, htoInt _ fits, htoInt start (by omega)]
  omega

/-- On text that lies in memory, `prints` writes the text. -/
theorem printsMeaning_holds {memory : Nat → Option UInt8} {bytes : Bytes} {offset : Nat}
    (holds : MemoryHolds memory offset bytes) (fits : offset + bytes.length < 2 ^ 31) :
    printsMeaning memory (BitVec.ofInt 32 offset) (BitVec.ofInt 32 bytes.length) =
      Run.emitBytes bytes := by
  have hdistance : distance (BitVec.ofInt 32 offset)
      (BitVec.ofInt 32 offset + BitVec.ofInt 32 bytes.length) = bytes.length := distance_ofNat fits
  rw [printsMeaning, hdistance]
  exact writeRange_holds holds (by omega)

/-! ## The library at once -/

/-- What the host's functions do. -/
def host (name : Bytes) : Option Callable :=
  ((libraryImports ⟨.initial, false⟩).find? (·.name = name)).bind Wat.Import.callable?

/-- Takes one number and returns nothing. -/
def takingOne (r : Word → Run Unit) : Callable where
  params := 1
  run args store :=
    match args with
    | [x] => thenReturn (r x) store
    | _ => .stop .wrong

/-- Takes two numbers and returns nothing. -/
def takingTwo (r : Word → Word → Run Unit) : Callable where
  params := 2
  run args store :=
    match args with
    | [x, y] => thenReturn (r x y) store
    | _ => .stop .wrong

/-- What the functions of the runtime library do. -/
def meanings (memory : Nat → Option UInt8) : List (Bytes × Callable) :=
  [(libraryName (utf8 "prints"), takingTwo (printsMeaning memory)),
    (libraryName (utf8 "printi"), takingOne fun x => Run.emitBytes (Bytes.ofInt x.toInt)),
    (libraryName (utf8 "printb"), takingOne (printbMeaning memory))]

/-- What the functions of the host and of the runtime library do. -/
def meant (memory : Nat → Option UInt8) (name : Bytes) : Option Callable :=
  (host name).or ((meanings memory).lookup name)

/-- The fuel with which every function of the library comes to its end: `prints` may go
through all of memory, and `printb` calls it. -/
def libraryFuel : Nat := 2 ^ 32 + 2

variable {memory : Nat → Option UInt8} {funcs : List (Wat.Func Op)}

theorem callee_printc (n : Nat) :
    Wat.callees memory host (library ++ funcs) n (libraryName (utf8 "printc")) =
      some Wat.putchar := by
  cases n <;> rfl

theorem callee_prints (n : Nat) :
    Wat.callees memory host (library ++ funcs) (n + 1) (libraryName (utf8 "prints")) =
      some ⟨2, (printsFunc ⟨.initial, false⟩).run
        ⟨memory, Wat.callees memory host (library ++ funcs) n, n⟩⟩ := rfl

/-- Two callees that do the same. -/
structure Same (f g : Callable) : Prop where
  params : f.params = g.params
  run : ∀ args store, args.length = f.params → f.run args store = g.run args store

theorem Same.extends {f g : Callable} (h : Same f g) : f.Extends g :=
  ⟨h.params, fun args store hargs => .of_eq (h.run args store hargs)⟩

theorem Same.symm {f g : Callable} (h : Same f g) : Same g f :=
  ⟨h.params.symm, fun args store hargs => (h.run args store (hargs.trans h.params.symm)).symm⟩

theorem same_takingOne {r : Word → Run Unit}
    {run : List Word → Store Word → Run (Option Word × Store Word)}
    (h : ∀ x store, run [x] store = thenReturn (r x) store) : Same ⟨1, run⟩ (takingOne r) := by
  refine ⟨rfl, ?_⟩
  intro args store hargs
  match args, hargs with
  | [x], _ => exact h x store

theorem same_takingTwo {r : Word → Word → Run Unit}
    {run : List Word → Store Word → Run (Option Word × Store Word)}
    (h : ∀ x y store, run [x, y] store = thenReturn (r x y) store) :
    Same ⟨2, run⟩ (takingTwo r) := by
  refine ⟨rfl, ?_⟩
  intro args store hargs
  match args, hargs with
  | [x, y], _ => exact h x y store

/-- With enough fuel, the functions of the library do what they are meant to do. -/
theorem callee_same (funcs : List (Wat.Func Op)) {n : Nat} (enough : libraryFuel ≤ n)
    {name : Bytes} {g : Callable} (hg : (meanings memory).lookup name = some g) :
    ∃ f, Wat.callees memory host (library ++ funcs) n name = some f ∧ Same f g := by
  obtain ⟨n, rfl⟩ : ∃ m, n = m + 2 := ⟨n - 2, by unfold libraryFuel at enough; omega⟩
  have hfuel : 2 ^ 32 ≤ n := by
    unfold libraryFuel at enough
    omega
  have hprintc : ∀ n, PrintsChars ⟨memory, Wat.callees memory host (library ++ funcs) n, n⟩ :=
    callee_printc
  have hmem := mem_of_lookup hg
  simp only [meanings, List.mem_cons, Prod.mk.injEq, List.not_mem_nil, or_false] at hmem
  rcases hmem with ⟨rfl, rfl⟩ | ⟨rfl, rfl⟩ | ⟨rfl, rfl⟩
  · refine ⟨_, callee_prints (n + 1), same_takingTwo fun start length store => ?_⟩
    have hdistance := distance_lt start (start + length)
    exact printsFunc_run (hprintc (n + 1)) (show _ < n + 1 by omega) store
  · refine ⟨_, rfl, same_takingOne fun x store => ?_⟩
    have hwrites : WritesChars
        ⟨memory, Wat.callees memory host (library ++ funcs) (n + 1), n + 1⟩ ⟨.initial, false⟩ :=
      hprintc (n + 1)
    exact printiFunc_run hwrites (show 9 ≤ n + 1 by omega) x store
  · refine ⟨_, rfl, same_takingOne fun b store => ?_⟩
    have hprints : ∀ start length : Word, (printsFunc ⟨.initial, false⟩).run
        ⟨memory, Wat.callees memory host (library ++ funcs) n, n⟩ [start, length] store = _ :=
      fun start length => printsFunc_run (hprintc n)
        (Nat.lt_of_lt_of_le (distance_lt start (start + length)) hfuel) store
    exact printbFunc_run (callee_prints n) rfl (hprints 0 4) (hprints 4 5) b

/-! ## The exchange -/

theorem callee_meant {name : Bytes} {g : Callable} (h : meant memory name = some g) (n : Nat) :
    Wat.callees memory (meant memory) funcs n name = some g := by
  cases n with
  | zero => rw [Wat.callees, Wat.link, h]
  | succ n => rw [Wat.callees, Wat.link, h]

/-- The two tables only differ in the names of the library. -/
theorem meant_cases (memory : Nat → Option UInt8) (name : Bytes) :
    host name = meant memory name ∨
      ∃ g, meant memory name = some g ∧ (meanings memory).lookup name = some g := by
  unfold meant
  cases host name with
  | some f => exact .inl rfl
  | none =>
    cases hg : (meanings memory).lookup name with
    | none => exact .inl rfl
    | some g => exact .inr ⟨g, rfl, rfl⟩

theorem callees_host_meant (n : Nat) :
    CalleesExtend (Wat.callees memory host (library ++ funcs) n)
      (Wat.callees memory (meant memory) (library ++ funcs) n) := by
  refine Wat.callees_exchange 0 ?_ n
  intro name
  rcases meant_cases memory name with heq | ⟨g, hmeant, hg⟩
  · rw [heq]
    exact .inl (Wat.extends_refl _)
  · refine .inr fun n => ?_
    obtain ⟨f, hf, hsame⟩ := callee_same funcs (Nat.le_add_left libraryFuel n) hg
    have hmore := Wat.callees_extend memory host (library ++ funcs)
      (Nat.le_add_right n libraryFuel) name
    rw [hf] at hmore
    rw [Nat.add_zero, callee_meant hmeant n]
    generalize Wat.callees memory host (library ++ funcs) n name = own at hmore
    cases hmore with
    | some hown => exact .some (hown.trans hsame.extends)

theorem callees_meant_host (n : Nat) :
    CalleesExtend (Wat.callees memory (meant memory) (library ++ funcs) n)
      (Wat.callees memory host (library ++ funcs) (n + libraryFuel)) := by
  refine Wat.callees_exchange libraryFuel ?_ n
  intro name
  rcases meant_cases memory name with heq | ⟨g, hmeant, hg⟩
  · rw [heq]
    exact .inl (Wat.extends_refl _)
  · refine .inr fun n => ?_
    obtain ⟨f, hf, hsame⟩ := callee_same funcs (Nat.le_add_left libraryFuel n) hg
    rw [hf, callee_meant hmeant n]
    exact .some hsame.symm.extends

end TreeWat.Lower
