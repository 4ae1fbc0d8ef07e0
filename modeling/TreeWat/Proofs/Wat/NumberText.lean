import TreeWat.Proofs.Text.Integer
import TreeWat.Proofs.Wat.StringText
set_option autoImplicit false

/-!
# Wat: the text of a number

The format of modules writes the operand of `i32.const` as a decimal or a hexadecimal number,
in which underscores may separate digits, with a sign or without.  `NumberText` is that grammar
as a relation between what is written and the word it stands for.  Without a sign the number
is read as an unsigned one, with a sign as a signed one, so that a sign in front halves the
range.  A decimal text without underscores is of the grammar if and only if its value is in the
range that its sign leaves, and it then stands for this value modulo 2³²
(`numberText_iff_of_isInteger`).
-/

namespace TreeWat.Wat

open Bytes (IsDigits IsInteger digitsValue)

/-! ## The grammar -/

/-- A decimal number of the format, in which single underscores separate digits. -/
inductive DecimalNumber : Bytes → Nat → Prop where
  | digit {b} (isDigit : Bytes.isDigit b = true) : DecimalNumber [b] (b.toNat - 48)
  | next {text n b} (before : DecimalNumber text n) (isDigit : Bytes.isDigit b = true) :
      DecimalNumber (text ++ [b]) (10 * n + (b.toNat - 48))
  | separated {text n b} (before : DecimalNumber text n) (isDigit : Bytes.isDigit b = true) :
      DecimalNumber (text ++ [byte '_', b]) (10 * n + (b.toNat - 48))

/-- A number of the format without its sign. -/
inductive Magnitude : Bytes → Nat → Prop where
  | decimal {text n} (number : DecimalNumber text n) : Magnitude text n
  | hexadecimal {text n} (number : HexNumber text n) : Magnitude (utf8 "0x" ++ text) n

/-- The text is a number of 32 bits, and stands for the word. -/
inductive NumberText : Bytes → Word → Prop where
  | unsigned {text} {n : Nat} (number : Magnitude text n) (fits : n < 2 ^ 32) :
      NumberText text (BitVec.ofInt 32 n)
  | plus {text} {n : Nat} (number : Magnitude text n) (fits : n < 2 ^ 31) :
      NumberText (byte '+' :: text) (BitVec.ofInt 32 n)
  | minus {text} {n : Nat} (number : Magnitude text n) (fits : n ≤ 2 ^ 31) :
      NumberText (byte '-' :: text) (BitVec.ofInt 32 (-n))

/-! ## Decimal texts -/

theorem DecimalNumber.starts {text : Bytes} {n : Nat} (h : DecimalNumber text n) :
    ∃ b rest, text = b :: rest ∧ Bytes.isDigit b = true := by
  induction h with
  | digit isDigit => exact ⟨_, [], rfl, isDigit⟩
  | next before isDigit ih | separated before isDigit ih =>
    obtain ⟨b, rest, rfl, starts⟩ := ih
    exact ⟨b, _, rfl, starts⟩

theorem Magnitude.starts {text : Bytes} {n : Nat} (h : Magnitude text n) :
    ∃ b rest, text = b :: rest ∧ Bytes.isDigit b = true := by
  cases h with
  | decimal number => exact number.starts
  | hexadecimal number => exact ⟨byte '0', _, rfl, by decide⟩

/-- A number has no sign. -/
theorem Magnitude.ne_sign {b : UInt8} {rest : Bytes} {n : Nat} (h : Magnitude (b :: rest) n) :
    b ≠ byte '-' ∧ b ≠ byte '+' := by
  obtain ⟨b', rest', heq, isDigit⟩ := h.starts
  cases heq
  exact Bytes.ne_sign_of_isDigit isDigit

theorem DecimalNumber.eq_digitsValue {s : Bytes} {n : Nat} (h : DecimalNumber s n)
    (digits : ∀ b ∈ s, Bytes.isDigit b = true) : n = digitsValue s := by
  induction h with
  | digit isDigit => simp [digitsValue]
  | next before isDigit ih =>
    rw [Bytes.digitsValue_append, ← ih fun b hb => digits b (List.mem_append_left _ hb)]
  | separated before isDigit ih => exact absurd (digits (byte '_') (by simp)) (by decide)

theorem decimalNumber_of_isDigits {s : Bytes} (run : IsDigits s) :
    DecimalNumber s (digitsValue s) := by
  obtain ⟨nonempty, digits⟩ := run
  induction s using List.reverseRecOn with
  | nil => exact absurd rfl nonempty
  | append_singleton init b ih =>
    have isDigit : Bytes.isDigit b = true := digits b (by simp)
    by_cases hinit : init = []
    · subst hinit
      simpa [digitsValue] using DecimalNumber.digit isDigit
    · rw [Bytes.digitsValue_append]
      exact .next (ih hinit fun b hb => digits b (List.mem_append_left _ hb)) isDigit

/-- Digits alone stand for their decimal value. -/
theorem magnitude_iff_of_isDigits {s : Bytes} (run : IsDigits s) {n : Nat} :
    Magnitude s n ↔ n = digitsValue s := by
  constructor
  · intro h
    cases h with
    | decimal number => exact number.eq_digitsValue run.digit
    | hexadecimal number =>
      have prefixed : byte 'x' ∈ utf8 "0x" := by decide
      exact absurd (run.digit _ (List.mem_append_left _ prefixed)) (by decide)
  · rintro rfl
    exact .decimal (decimalNumber_of_isDigits run)

/-! ## Signs -/

section Signs

variable {digits : Bytes} {w : Word}

/-- What stands behind the first byte depends on whether it is a sign. -/
theorem NumberText.cons_cases {b : UInt8} {rest : Bytes} (h : NumberText (b :: rest) w) :
    (∃ n : Nat, Magnitude (b :: rest) n ∧ n < 2 ^ 32 ∧ w = BitVec.ofInt 32 n) ∨
    (b = byte '+' ∧ ∃ n : Nat, Magnitude rest n ∧ n < 2 ^ 31 ∧ w = BitVec.ofInt 32 n) ∨
    (b = byte '-' ∧ ∃ n : Nat, Magnitude rest n ∧ n ≤ 2 ^ 31 ∧ w = BitVec.ofInt 32 (-n)) := by
  generalize hwhole : b :: rest = whole at h
  cases h with
  | unsigned number fits => exact .inl ⟨_, number, fits, rfl⟩
  | plus number fits =>
    cases hwhole
    exact .inr (.inl ⟨rfl, _, number, fits, rfl⟩)
  | minus number fits =>
    cases hwhole
    exact .inr (.inr ⟨rfl, _, number, fits, rfl⟩)

theorem numberText_bare (run : IsDigits digits) :
    NumberText digits w ↔
      w = BitVec.ofInt 32 (digitsValue digits) ∧ digitsValue digits < 2 ^ 32 := by
  constructor
  · intro h
    obtain ⟨b, rest, rfl⟩ := List.exists_cons_of_ne_nil run.nonempty
    obtain ⟨hminus, hplus⟩ := Bytes.ne_sign_of_isDigit run.head
    rcases h.cons_cases with ⟨n, number, fits, rfl⟩ | ⟨hb, -⟩ | ⟨hb, -⟩
    · obtain rfl := (magnitude_iff_of_isDigits run).mp number
      exact ⟨rfl, fits⟩
    · exact absurd hb hplus
    · exact absurd hb hminus
  · rintro ⟨rfl, fits⟩
    exact .unsigned ((magnitude_iff_of_isDigits run).mpr rfl) fits

theorem numberText_plus (run : IsDigits digits) :
    NumberText (byte '+' :: digits) w ↔
      w = BitVec.ofInt 32 (digitsValue digits) ∧ digitsValue digits < 2 ^ 31 := by
  constructor
  · intro h
    rcases h.cons_cases with ⟨n, number, -, -⟩ | ⟨-, n, number, fits, rfl⟩ | ⟨hb, -⟩
    · exact absurd rfl number.ne_sign.2
    · obtain rfl := (magnitude_iff_of_isDigits run).mp number
      exact ⟨rfl, fits⟩
    · exact absurd hb (by decide)
  · rintro ⟨rfl, fits⟩
    exact .plus ((magnitude_iff_of_isDigits run).mpr rfl) fits

theorem numberText_minus (run : IsDigits digits) :
    NumberText (byte '-' :: digits) w ↔
      w = BitVec.ofInt 32 (-(digitsValue digits : Int)) ∧ digitsValue digits ≤ 2 ^ 31 := by
  constructor
  · intro h
    rcases h.cons_cases with ⟨n, number, -, -⟩ | ⟨hb, -⟩ | ⟨-, n, number, fits, rfl⟩
    · exact absurd rfl number.ne_sign.1
    · exact absurd hb (by decide)
    · obtain rfl := (magnitude_iff_of_isDigits run).mp number
      exact ⟨rfl, fits⟩
  · rintro ⟨rfl, fits⟩
    exact .minus ((magnitude_iff_of_isDigits run).mpr rfl) fits

end Signs

/-- An integer without underscores is a number of the format if its value is in range, and then
stands for this value modulo 2³².  A plus sign excludes the upper half of the unsigned
range. -/
theorem numberText_iff_of_isInteger {text : Bytes} {v : Int} (h : IsInteger text v) {w : Word} :
    NumberText text w ↔ w = BitVec.ofInt 32 v ∧ -2 ^ 31 ≤ v ∧
      v < (if text.head? = some (byte '+') then 2 ^ 31 else 2 ^ 32) := by
  cases h with
  | bare run =>
    have unsigned : text.head? ≠ some (byte '+') := by
      intro hhead
      exact (Bytes.ne_sign_of_isDigit (run.digit _ (List.mem_of_mem_head? hhead))).2 rfl
    rw [numberText_bare run, if_neg unsigned]
    exact and_congr_right' (by omega)
  | plus run =>
    rw [numberText_plus run, List.head?_cons, if_pos rfl]
    exact and_congr_right' (by omega)
  | minus run =>
    rw [numberText_minus run, List.head?_cons, if_neg (by decide)]
    exact and_congr_right' (by omega)

end TreeWat.Wat
