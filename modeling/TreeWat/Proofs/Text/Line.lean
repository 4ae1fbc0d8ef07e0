import TreeWat.Text.Quoted
import TreeWat.Proofs.Text.Numeral
set_option autoImplicit false

/-!
# Text: wordings that fit on one line

Messages are put together from fixed wordings, numbers and pieces of the user's text in
quoted form.  None of these has a line break in it: a number is digits, and the quoted form
writes every control character with a backslash.

Main statements: `oneLine_quoted` and `oneLine_replace`.
-/

namespace TreeWat

/-- A property of bytes that holds of all 256. -/
theorem forall_byte {P : UInt8 → Prop} (all : ∀ n : Fin 256, P (UInt8.ofFin n)) (b : UInt8) :
    P b :=
  UInt8.ofFin_toFin b ▸ all b.toFin

/-- The text has no line break. -/
def OneLine (s : Bytes) : Prop :=
  byte '\n' ∉ s

instance : DecidablePred OneLine :=
  fun s => inferInstanceAs (Decidable (byte '\n' ∉ s))

@[simp] theorem oneLine_nil : OneLine [] :=
  List.not_mem_nil

@[simp] theorem oneLine_cons {b : UInt8} {s : Bytes} :
    OneLine (b :: s) ↔ b ≠ byte '\n' ∧ OneLine s := by
  simp [OneLine, eq_comm]

@[simp] theorem oneLine_append {s t : Bytes} : OneLine (s ++ t) ↔ OneLine s ∧ OneLine t := by
  simp [OneLine]

theorem oneLine_of_forall {p : UInt8 → Bool} (noBreak : p (byte '\n') = false) {s : Bytes}
    (all : ∀ b ∈ s, p b = true) : OneLine s := by
  intro hmem
  rw [all _ hmem] at noBreak
  cases noBreak

theorem oneLine_flatMap {α : Type} {xs : List α} {f : α → Bytes} (each : ∀ x ∈ xs, OneLine (f x)) :
    OneLine (xs.flatMap f) := by
  intro hmem
  obtain ⟨x, hx, hmem⟩ := List.mem_flatMap.mp hmem
  exact each x hx hmem

theorem oneLine_join {sep : Bytes} {pieces : List Bytes} (hsep : OneLine sep)
    (each : ∀ p ∈ pieces, OneLine p) : OneLine (Bytes.join sep pieces) := by
  fun_induction Bytes.join sep pieces with
  | case1 => exact oneLine_nil
  | case2 s => exact each s List.mem_cons_self
  | case3 s r _ ih =>
    obtain ⟨hs, hr⟩ := List.forall_mem_cons.mp each
    exact oneLine_append.mpr ⟨oneLine_append.mpr ⟨hs, hsep⟩, ih hr⟩

/-! ## Numbers -/

@[simp] theorem oneLine_ofNat (n : Nat) : OneLine (Bytes.ofNat n) :=
  oneLine_of_forall (p := Bytes.isDigit) (by decide) (Bytes.ofNat_isDigit n)

@[simp] theorem oneLine_ofInt (i : Int) : OneLine (Bytes.ofInt i) := by
  cases i with
  | ofNat n => exact oneLine_ofNat n
  | negSucc n => exact oneLine_cons.mpr ⟨by decide, oneLine_ofNat (n + 1)⟩

theorem oneLine_of_toNat? {s : Bytes} {n : Nat} (h : Bytes.toNat? s = some n) : OneLine s := by
  unfold Bytes.toNat? at h
  split at h
  · rename_i digits
    simp only [Bool.and_eq_true, List.all_eq_true] at digits
    exact oneLine_of_forall (p := Bytes.isDigit) (by decide) digits.2
  · cases h

/-- The text of an integer is digits, with a sign or without. -/
theorem oneLine_of_toInt? {s : Bytes} (isNumber : Bytes.toInt? s ≠ none) : OneLine s := by
  have digits {t : Bytes} (h : Bytes.toNat? t ≠ none) : OneLine t := by
    obtain ⟨n, hn⟩ := Option.ne_none_iff_exists'.mp h
    exact oneLine_of_toNat? hn
  cases s with
  | nil => exact oneLine_nil
  | cons b s =>
    rw [Bytes.toInt?] at isNumber
    split at isNumber
    · rename_i minus
      subst minus
      exact oneLine_cons.mpr ⟨by decide, digits (by rintro hs; simp [hs] at isNumber)⟩
    · split at isNumber
      · rename_i plus
        subst plus
        exact oneLine_cons.mpr ⟨by decide, digits (by rintro hs; simp [hs] at isNumber)⟩
      · exact digits (by rintro hs; simp [hs] at isNumber)

theorem hexDigit_ne {n : Nat} (h : n < 16) : Bytes.hexDigit false n ≠ byte '\n' := by
  have hall : ∀ n, n < 16 → Bytes.hexDigit false n ≠ byte '\n' := by decide
  exact hall n h

theorem oneLine_ofHex (width n : Nat) : OneLine (Bytes.ofHex false width n) := by
  induction width generalizing n with
  | zero => exact oneLine_nil
  | succ w ih =>
    have hdigit := hexDigit_ne (Nat.mod_lt n (by decide : 16 > 0))
    simp [Bytes.ofHex, ih, hdigit]

/-! ## Cleared texts -/

theorem oneLine_replace (b : UInt8) (s : Bytes) (other : b ≠ byte '\n') :
    OneLine (Bytes.replace (byte '\n') b s) := by
  intro hmem
  obtain ⟨x, -, hx⟩ := List.mem_map.mp hmem
  split at hx
  · exact other hx
  · contradiction

/-! ## Quoted texts -/

namespace Utf8

theorem ne_of_high {b : UInt8} (high : 0x80 ≤ b) : b ≠ byte '\n' := by
  rintro rfl
  exact absurd high (by decide)

theorem secondRange_high (lead : UInt8) : 0x80 ≤ (secondRange lead).1 := by
  unfold secondRange
  split
  · decide
  · split
    · decide
    · split
      · decide
      · split <;> decide

theorem isContinuation_high {b : UInt8} (h : isContinuation b = true) : 0x80 ≤ b := by
  simp only [isContinuation, Bool.and_eq_true, decide_eq_true_eq] at h
  exact h.1

/-- Only the code point of the line break has it among its bytes. -/
theorem oneLine_of_scalar? {lead : UInt8} {rest : Bytes} {value count : Nat}
    (h : scalar? lead rest = some (value, count)) (other : value ≠ 10) :
    OneLine (lead :: rest.take count) := by
  unfold scalar? at h
  split at h
  · cases h
    refine oneLine_cons.mpr ⟨?_, by simp⟩
    rintro rfl
    exact other rfl
  · rename_i notAscii
    have hlead : lead ≠ byte '\n' := ne_of_high (UInt8.not_lt.mp notAscii)
    split at h
    · cases h
    · dsimp only at h
      split at h
      · cases h
      · rename_i b more
        split at h
        · cases h
        · rename_i inRange
          simp only [Bool.or_eq_true, decide_eq_true_eq, not_or, UInt8.not_lt] at inRange
          have hb : b ≠ byte '\n' := ne_of_high (UInt8.le_trans (secondRange_high lead) inRange.1)
          split at h
          · obtain rfl := (Prod.mk.inj (Option.some.inj h)).2
            simp [hlead, hb]
          · split at h
            · cases h
            · rename_i c more'
              split at h
              · cases h
              · rename_i continues
                have hc : c ≠ byte '\n' :=
                  ne_of_high (isContinuation_high (by simpa using continues))
                split at h
                · obtain rfl := (Prod.mk.inj (Option.some.inj h)).2
                  simp [hlead, hb, hc]
                · split at h
                  · cases h
                  · rename_i d _
                    split at h
                    · cases h
                    · rename_i continues'
                      have hd : d ≠ byte '\n' :=
                        ne_of_high (isContinuation_high (by simpa using continues'))
                      obtain rfl := (Prod.mk.inj (Option.some.inj h)).2
                      simp [hlead, hb, hc, hd]

/-- The line break is a unit of its own. -/
theorem oneLine_of_mem_piecesFrom {skip : Nat} {s : Bytes} {value : Nat} {bs : Bytes}
    (h : .scalar value bs ∈ piecesFrom skip s) (other : value ≠ 10) : OneLine bs := by
  fun_induction piecesFrom skip s with
  | case1 => cases h
  | case2 b r k ih => exact ih h
  | case3 b r _ ih =>
    rcases List.mem_cons.mp h with h | h
    · cases h
    · exact ih h
  | case4 b r v k hscalar ih =>
    rcases List.mem_cons.mp h with h | h
    · cases h
      exact oneLine_of_scalar? hscalar other
    · exact ih h

theorem oneLine_ofByte {b : UInt8} (other : b ≠ byte '\n') : OneLine (ofByte b) :=
  forall_byte (P := fun b => b ≠ byte '\n' → OneLine (ofByte b)) (by decide +kernel) b other

end Utf8

theorem controlLetter?_ne {n : Nat} {c : Char} (h : Text.controlLetter? n = some c) :
    byte c ≠ byte '\n' := by
  unfold Text.controlLetter? at h
  split at h <;> cases h <;> decide

theorem oneLine_quotedPiece {s : Bytes} {p : Utf8.Piece} (h : p ∈ Utf8.pieces s) :
    OneLine (Text.quotedPiece p) := by
  cases p with
  | stray b => simp [Text.quotedPiece, oneLine_ofHex]; decide
  | scalar n bs =>
    rw [Text.quotedPiece]
    by_cases hbreak : n = 10
    · subst hbreak
      have hprint : Text.isPrintable 10 = false := by decide +kernel
      simp [hprint, Text.controlLetter?]
      decide
    · have hbs := Utf8.oneLine_of_mem_piecesFrom h hbreak
      split
      · simpa using ⟨by decide, hbs⟩
      · split
        · exact hbs
        · split
          · rename_i c hletter
            have hc := controlLetter?_ne hletter
            simpa using ⟨by decide, hc⟩
          · split
            · simp [oneLine_ofHex]; decide
            · split
              · simp [oneLine_ofHex]; decide
              · simp [oneLine_ofHex]; decide

/-- A text in quoted form fits on one line. -/
@[simp] theorem oneLine_quoted (s : Bytes) : OneLine (Text.quoted s) := by
  have hpieces : OneLine ((Utf8.pieces s).flatMap Text.quotedPiece) :=
    oneLine_flatMap fun p hp => oneLine_quotedPiece hp
  simp [Text.quoted, hpieces]
  decide

end TreeWat
