import Mathlib.Data.List.Basic
import Mathlib.Data.List.Induction
import TreeWat.Proofs.Run
set_option autoImplicit false

/-!
# Text: decimal numerals

Generated code holds numbers as decimal numerals.  Reading back what `Bytes.ofInt`
writes gives the number again, so that an instruction pushes the number it was made
for.
-/

namespace TreeWat

/-- The byte of a decimal digit. -/
def digitByte (d : Nat) : UInt8 :=
  (48 + d).toUInt8

theorem byte_digitChar {d : Nat} (h : d < 10) : byte d.digitChar = digitByte d := by
  have hall : ∀ d, d < 10 → byte d.digitChar = digitByte d := by decide
  exact hall d h

theorem digitByte_toNat {d : Nat} (h : d < 10) : (digitByte d).toNat = 48 + d := by
  have hall : ∀ d, d < 10 → (digitByte d).toNat = 48 + d := by decide
  exact hall d h

theorem isDigit_digitByte {d : Nat} (h : d < 10) : Bytes.isDigit (digitByte d) = true := by
  have hall : ∀ d, d < 10 → Bytes.isDigit (digitByte d) = true := by decide
  exact hall d h

namespace Bytes

theorem ofNat_of_lt {d : Nat} (h : d < 10) : ofNat d = [digitByte d] := by
  unfold ofNat
  rw [Nat.toDigits_of_lt_base h, List.map_singleton, byte_digitChar h]

/-- The last digit stands at the end. -/
theorem ofNat_step {n d : Nat} (hn : 0 < n) (hd : d < 10) :
    ofNat (10 * n + d) = ofNat n ++ [digitByte d] := by
  rw [← ofNat_of_lt hd]
  unfold ofNat
  rw [← List.map_append, Nat.toDigits_append_toDigits (by decide) hn hd]

/-- What holds of single digits and of a numeral with one more digit holds of all
numerals. -/
theorem ofNat_induction {motive : Nat → Prop} (digit : ∀ d, d < 10 → motive d)
    (step : ∀ n d, 0 < n → d < 10 → motive n → motive (10 * n + d)) (n : Nat) : motive n := by
  induction n using Nat.strongRecOn with
  | ind n ih =>
    by_cases hn : n < 10
    · exact digit n hn
    · have hstep := step (n / 10) (n % 10) (by omega) (by omega) (ih (n / 10) (by omega))
      rwa [Nat.div_add_mod] at hstep

theorem digitsValue_append (s : Bytes) (b : UInt8) :
    digitsValue (s ++ [b]) = 10 * digitsValue s + (b.toNat - 48) := by
  unfold digitsValue
  rw [List.foldl_append]
  rfl

theorem digitsValue_ofNat (n : Nat) : digitsValue (ofNat n) = n := by
  induction n using ofNat_induction with
  | digit d hd =>
    rw [ofNat_of_lt hd, show [digitByte d] = [] ++ [digitByte d] from rfl, digitsValue_append,
      digitByte_toNat hd]
    simp [digitsValue]
  | step n d hn hd ih =>
    rw [ofNat_step hn hd, digitsValue_append, ih, digitByte_toNat hd]
    omega

theorem ofNat_injective : Function.Injective ofNat := fun m n h => by
  rw [← digitsValue_ofNat m, h, digitsValue_ofNat]

theorem ofNat_isDigit (n : Nat) : ∀ b ∈ ofNat n, isDigit b = true := by
  induction n using ofNat_induction with
  | digit d hd =>
    rw [ofNat_of_lt hd]
    intro b hb
    rw [List.mem_singleton.mp hb]
    exact isDigit_digitByte hd
  | step n d hn hd ih =>
    rw [ofNat_step hn hd]
    intro b hb
    rcases List.mem_append.mp hb with hb | hb
    · exact ih b hb
    · rw [List.mem_singleton.mp hb]
      exact isDigit_digitByte hd

theorem ofNat_ne_nil (n : Nat) : ofNat n ≠ [] := by
  unfold ofNat
  simp [Nat.toDigits_ne_nil]

theorem toNat?_ofNat (n : Nat) : toNat? (ofNat n) = some n := by
  unfold toNat?
  have hall : (ofNat n).all isDigit = true := List.all_eq_true.mpr (ofNat_isDigit n)
  have hsome : (ofNat n).isEmpty = false := by simp [ofNat_ne_nil]
  rw [hall, hsome, digitsValue_ofNat]
  rfl

/-- A numeral reads back as its number. -/
theorem toInt?_ofInt (i : Int) : toInt? (ofInt i) = some i := by
  cases i with
  | ofNat n =>
    show toInt? (ofNat n) = some (n : Int)
    cases hdigits : ofNat n with
    | nil => exact absurd hdigits (ofNat_ne_nil n)
    | cons b rest =>
      -- a digit is no sign
      have hdigit : isDigit b = true := ofNat_isDigit n b (by simp [hdigits])
      have hminus : b ≠ byte '-' := by
        rintro rfl
        exact absurd hdigit (by decide)
      have hplus : b ≠ byte '+' := by
        rintro rfl
        exact absurd hdigit (by decide)
      rw [toInt?, if_neg hminus, if_neg hplus, ← hdigits, toNat?_ofNat]
      rfl
  | negSucc n =>
    show toInt? (byte '-' :: ofNat (n + 1)) = some (Int.negSucc n)
    rw [toInt?, if_pos rfl, toNat?_ofNat]
    rfl

/-! ## Canonical forms -/

/-- The digits of a natural number: they have its value, and the first one is no zero,
unless it is the only one. -/
structure IsNumeral (n : Nat) (digits : Bytes) : Prop where
  nonempty : digits ≠ []
  digit : ∀ b ∈ digits, isDigit b = true
  value : digitsValue digits = n
  leading : digits.head? = some (byte '0') → digits = [byte '0']

theorem isDigit_iff {b : UInt8} : isDigit b = true ↔ ∃ d, d < 10 ∧ b = digitByte d := by
  constructor
  · intro h
    rw [isDigit, Bool.and_eq_true, decide_eq_true_eq, decide_eq_true_eq] at h
    have hrange : 48 ≤ b.toNat ∧ b.toNat ≤ 57 := h
    have hall : ∀ n, n < 58 → 48 ≤ n → n.toUInt8 = digitByte (n - 48) := by decide
    refine ⟨b.toNat - 48, by omega, ?_⟩
    rw [← hall b.toNat (by omega) hrange.1]
    simp
  · rintro ⟨d, hd, rfl⟩
    exact isDigit_digitByte hd

theorem isNumeral_ofNat (n : Nat) : IsNumeral n (ofNat n) where
  nonempty := ofNat_ne_nil n
  digit := ofNat_isDigit n
  value := digitsValue_ofNat n
  leading := by
    -- only the numeral of zero begins with a zero
    suffices hzero : (ofNat n).head? = some (byte '0') → n = 0 by
      intro h
      rw [hzero h]
      rfl
    induction n using ofNat_induction with
    | digit d hd =>
      have hall : ∀ d, d < 10 → [digitByte d].head? = some (byte '0') → d = 0 := by decide
      rw [ofNat_of_lt hd]
      exact hall d hd
    | step n d hn hd ih =>
      rw [ofNat_step hn hd, List.head?_append_of_ne_nil _ (ofNat_ne_nil n)]
      intro h
      exact absurd (ih h) (by omega)

/-- The digits of a number are determined. -/
theorem isNumeral_iff {n : Nat} {digits : Bytes} : IsNumeral n digits ↔ digits = ofNat n := by
  constructor
  · intro h
    induction digits using List.reverseRecOn generalizing n with
    | nil => exact absurd rfl h.nonempty
    | append_singleton init b ih =>
      obtain ⟨d, hd, rfl⟩ := isDigit_iff.mp (h.digit b (by simp))
      have hvalue : 10 * digitsValue init + d = n := by
        rw [← h.value, digitsValue_append, digitByte_toNat hd]
        omega
      by_cases hinit : init = []
      · subst hinit
        have hn : d = n := by simpa [digitsValue] using hvalue
        rw [← hn, ofNat_of_lt hd, List.nil_append]
      · have hleading : init.head? ≠ some (byte '0') := by
          intro hhead
          have hwhole := h.leading ((List.head?_append_of_ne_nil _ hinit).trans hhead)
          rcases List.append_eq_singleton_iff.mp hwhole with ⟨hnil, -⟩ | ⟨-, hnil⟩
          · exact hinit hnil
          · cases hnil
        have hsame : init = ofNat (digitsValue init) :=
          ih ⟨hinit, fun b' hb => h.digit b' (List.mem_append_left _ hb), rfl,
            fun hhead => absurd hhead hleading⟩
        have hpos : 0 < digitsValue init := by
          rcases Nat.eq_zero_or_pos (digitsValue init) with hzero | hpos
          · rw [hzero] at hsame
            exact absurd (congrArg List.head? hsame) hleading
          · exact hpos
        rw [← hvalue, ofNat_step hpos hd, ← hsame]
  · rintro rfl
    exact isNumeral_ofNat n

/-- The canonical decimal form of an integer: a sign in front of negative numbers only,
and the digits of the magnitude. -/
def IsDecimal (i : Int) (text : Bytes) : Prop :=
  ∃ digits, IsNumeral i.natAbs digits ∧ text = if i < 0 then byte '-' :: digits else digits

/-- The decimal form of a number is determined. -/
theorem isDecimal_iff {i : Int} {text : Bytes} : IsDecimal i text ↔ text = ofInt i := by
  have hform : ofInt i = if i < 0 then byte '-' :: ofNat i.natAbs else ofNat i.natAbs := by
    cases i with
    | ofNat n => rfl
    | negSucc n => exact (if_pos (Int.negSucc_lt_zero n)).symm
  constructor
  · rintro ⟨digits, hdigits, rfl⟩
    rw [isNumeral_iff.mp hdigits, hform]
  · intro h
    exact ⟨_, isNumeral_ofNat i.natAbs, h.trans hform⟩

end Bytes

/-- A numeral made for a number of 32 bits stands for it. -/
theorem Word.ofNumeral?_ofInt {i : Int} (low : -2 ^ 31 ≤ i) (high : i < 2 ^ 32) :
    Word.ofNumeral? (Bytes.ofInt i) = some (BitVec.ofInt 32 i) := by
  unfold Word.ofNumeral?
  rw [Bytes.toInt?_ofInt]
  exact if_pos ⟨low, high⟩

end TreeWat
