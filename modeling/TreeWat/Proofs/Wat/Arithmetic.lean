import TreeWat.Proofs.Wat.Machine
set_option autoImplicit false

/-!
# Wat: instructions on numbers whose value is known

Words are written as `BitVec.ofInt 32 i`, and each instruction is given on the integers
behind its words, as long as these have 32 bits.
-/

namespace TreeWat.Wat

variable {i j : Int}

theorem toInt_ofInt (low : -2 ^ 31 ≤ i) (high : i < 2 ^ 31) : (BitVec.ofInt 32 i).toInt = i :=
  BitVec.toInt_ofInt_eq_self (by decide) low high

theorem toInt_range (w : Word) : -2 ^ 31 ≤ w.toInt ∧ w.toInt < 2 ^ 31 :=
  ⟨BitVec.le_toInt w, BitVec.toInt_lt⟩

theorem apply_add (i j : Int) :
    Arith.add.apply (BitVec.ofInt 32 i) (BitVec.ofInt 32 j) = some (BitVec.ofInt 32 (i + j)) :=
  congrArg some (BitVec.ofInt_add i j).symm

theorem apply_sub (i j : Int) :
    Arith.sub.apply (BitVec.ofInt 32 i) (BitVec.ofInt 32 j) = some (BitVec.ofInt 32 (i - j)) := by
  have hsub : BitVec.ofInt 32 (i - j) = BitVec.ofInt 32 i - BitVec.ofInt 32 j := by
    rw [Int.sub_eq_add_neg, BitVec.ofInt_add, BitVec.ofInt_neg, BitVec.sub_eq_add_neg]
  exact congrArg some hsub.symm

theorem apply_mul (i j : Int) :
    Arith.mul.apply (BitVec.ofInt 32 i) (BitVec.ofInt 32 j) = some (BitVec.ofInt 32 (i * j)) :=
  congrArg some (BitVec.ofInt_mul i j).symm

section Range

variable (lowI : -2 ^ 31 ≤ i) (highI : i < 2 ^ 31)

include lowI highI

/-- There is a quotient by a positive number. -/
theorem apply_div (posJ : 0 < j) (highJ : j < 2 ^ 31) :
    Arith.div.apply (BitVec.ofInt 32 i) (BitVec.ofInt 32 j) =
      some (BitVec.ofInt 32 (i.tdiv j)) := by
  have hi := toInt_ofInt lowI highI
  have hj : (BitVec.ofInt 32 j).toInt = j := toInt_ofInt (by omega) highJ
  have hzero : BitVec.ofInt 32 j ≠ 0 := by
    intro h
    rw [h] at hj
    have hnone : (0 : Word).toInt = 0 := by decide
    omega
  have hminus : BitVec.ofInt 32 j ≠ -1 := by
    intro h
    rw [h] at hj
    have hone : (-1 : Word).toInt = -1 := by decide
    omega
  have hquotient : (BitVec.ofInt 32 i).sdiv (BitVec.ofInt 32 j) = BitVec.ofInt 32 (i.tdiv j) := by
    rw [← BitVec.ofInt_toInt (x := BitVec.sdiv _ _), BitVec.toInt_sdiv_of_ne_or_ne _ _ (.inr hminus),
      hi, hj]
  have hexists : ¬ (BitVec.ofInt 32 j = 0 ∨
      (BitVec.ofInt 32 i = BitVec.intMin 32 ∧ BitVec.ofInt 32 j = -1)) := by
    rintro (h | ⟨-, h⟩)
    · exact hzero h
    · exact hminus h
  show Word.divide? _ _ = _
  rw [Word.divide?, if_neg hexists, hquotient]

theorem apply_rem (posJ : 0 < j) (highJ : j < 2 ^ 31) :
    Arith.rem.apply (BitVec.ofInt 32 i) (BitVec.ofInt 32 j) =
      some (BitVec.ofInt 32 (i.tmod j)) := by
  have hi := toInt_ofInt lowI highI
  have hj : (BitVec.ofInt 32 j).toInt = j := toInt_ofInt (by omega) highJ
  have hzero : BitVec.ofInt 32 j ≠ 0 := by
    intro h
    rw [h] at hj
    have hnone : (0 : Word).toInt = 0 := by decide
    omega
  have hremainder : (BitVec.ofInt 32 i).srem (BitVec.ofInt 32 j) = BitVec.ofInt 32 (i.tmod j) := by
    rw [← BitVec.ofInt_toInt (x := BitVec.srem _ _), BitVec.toInt_srem, hi, hj]
  show Word.remainder? _ _ = _
  rw [Word.remainder?, if_neg hzero, hremainder]

variable (lowJ : -2 ^ 31 ≤ j) (highJ : j < 2 ^ 31)

include lowJ highJ

theorem apply_eq : Arith.eq.apply (BitVec.ofInt 32 i) (BitVec.ofInt 32 j) =
    some (Word.ofBool (decide (i = j))) := by
  have heq : (BitVec.ofInt 32 i == BitVec.ofInt 32 j) = decide (i = j) := by
    rw [Bool.eq_iff_iff, beq_iff_eq, decide_eq_true_iff, ← BitVec.toInt_inj,
      toInt_ofInt lowI highI, toInt_ofInt lowJ highJ]
  exact congrArg (fun b => some (Word.ofBool b)) heq

theorem apply_lt : Arith.lt.apply (BitVec.ofInt 32 i) (BitVec.ofInt 32 j) =
    some (Word.ofBool (decide (i < j))) := by
  have hlt : (BitVec.ofInt 32 i).slt (BitVec.ofInt 32 j) = decide (i < j) := by
    rw [Bool.eq_iff_iff, BitVec.slt_iff_toInt_lt, decide_eq_true_iff, toInt_ofInt lowI highI,
      toInt_ofInt lowJ highJ]
  exact congrArg (fun b => some (Word.ofBool b)) hlt

theorem apply_gt : Arith.gt.apply (BitVec.ofInt 32 i) (BitVec.ofInt 32 j) =
    some (Word.ofBool (decide (j < i))) :=
  apply_lt lowJ highJ lowI highI

theorem apply_le : Arith.le.apply (BitVec.ofInt 32 i) (BitVec.ofInt 32 j) =
    some (Word.ofBool (decide (i ≤ j))) := by
  have hle : (BitVec.ofInt 32 i).sle (BitVec.ofInt 32 j) = decide (i ≤ j) := by
    rw [Bool.eq_iff_iff, BitVec.sle_iff_toInt_le, decide_eq_true_iff, toInt_ofInt lowI highI,
      toInt_ofInt lowJ highJ]
  exact congrArg (fun b => some (Word.ofBool b)) hle

theorem apply_ge : Arith.ge.apply (BitVec.ofInt 32 i) (BitVec.ofInt 32 j) =
    some (Word.ofBool (decide (j ≤ i))) :=
  apply_le lowJ highJ lowI highI

end Range

end TreeWat.Wat
