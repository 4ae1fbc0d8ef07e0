import TreeWat.Proofs.Text.Numeral
set_option autoImplicit false

/-!
# Text: integers with a sign

Unlike generated numerals, an integer in a source may have a sign, a plus included, and zeros
in front.  `IsInteger` says which texts these are and what they stand for; it is what
`Bytes.toInt?` computes.
-/

namespace TreeWat.Bytes

/-- At least one digit, and nothing else. -/
structure IsDigits (s : Bytes) : Prop where
  nonempty : s ≠ []
  digit : ∀ b ∈ s, isDigit b = true

/-- The text is an optional sign and decimal digits, and stands for the integer. -/
inductive IsInteger : Bytes → Int → Prop where
  | bare {digits} (run : IsDigits digits) : IsInteger digits (digitsValue digits)
  | plus {digits} (run : IsDigits digits) :
      IsInteger (byte '+' :: digits) (digitsValue digits)
  | minus {digits} (run : IsDigits digits) :
      IsInteger (byte '-' :: digits) (-(digitsValue digits : Int))

theorem IsDigits.head {b : UInt8} {s : Bytes} (run : IsDigits (b :: s)) : isDigit b = true :=
  run.digit b List.mem_cons_self

theorem ne_sign_of_isDigit {b : UInt8} (h : isDigit b = true) : b ≠ byte '-' ∧ b ≠ byte '+' := by
  constructor
  · rintro rfl
    exact absurd h (by decide)
  · rintro rfl
    exact absurd h (by decide)

theorem toNat?_eq_some_iff {s : Bytes} {n : Nat} :
    toNat? s = some n ↔ IsDigits s ∧ n = digitsValue s := by
  unfold toNat?
  split
  · rename_i hall
    simp only [Bool.and_eq_true, Bool.not_eq_true', List.isEmpty_eq_false_iff,
      List.all_eq_true] at hall
    have run : IsDigits s := ⟨hall.1, hall.2⟩
    simp [run, eq_comm]
  · rename_i hnot
    have noRun : ¬IsDigits s := by
      intro run
      apply hnot
      simpa [run.nonempty] using run.digit
    simp [noRun]

/-- Reading an integer looks at the first byte only to find a sign. -/
theorem toInt?_cons (b : UInt8) (s : Bytes) :
    toInt? (b :: s) =
      if b = byte '-' then (toNat? s).map fun n : Nat => -(n : Int)
      else if b = byte '+' then (toNat? s).map fun n : Nat => (n : Int)
      else (toNat? (b :: s)).map fun n : Nat => (n : Int) := by
  rw [toInt?]
  cases toNat? s <;> cases toNat? (b :: s) <;> rfl

/-- The integers that are read are those that are written as such. -/
theorem toInt?_eq_some_iff {s : Bytes} {v : Int} : toInt? s = some v ↔ IsInteger s v := by
  constructor
  · intro h
    cases s with
    | nil => cases h
    | cons b s =>
      rw [toInt?_cons] at h
      split at h
      · rename_i hminus
        obtain ⟨n, hn, rfl⟩ := Option.map_eq_some_iff.mp h
        obtain ⟨run, rfl⟩ := toNat?_eq_some_iff.mp hn
        exact hminus ▸ .minus run
      · split at h
        · rename_i hplus
          obtain ⟨n, hn, rfl⟩ := Option.map_eq_some_iff.mp h
          obtain ⟨run, rfl⟩ := toNat?_eq_some_iff.mp hn
          exact hplus ▸ .plus run
        · obtain ⟨n, hn, rfl⟩ := Option.map_eq_some_iff.mp h
          obtain ⟨run, rfl⟩ := toNat?_eq_some_iff.mp hn
          exact .bare run
  · intro h
    cases h with
    | bare run =>
      cases s with
      | nil => exact absurd rfl run.nonempty
      | cons b s =>
        obtain ⟨hminus, hplus⟩ := ne_sign_of_isDigit run.head
        rw [toInt?_cons, if_neg hminus, if_neg hplus, toNat?_eq_some_iff.mpr ⟨run, rfl⟩]
        rfl
    | plus run =>
      rw [toInt?_cons, if_neg (by decide), if_pos rfl, toNat?_eq_some_iff.mpr ⟨run, rfl⟩]
      rfl
    | minus run =>
      rw [toInt?_cons, if_pos rfl, toNat?_eq_some_iff.mpr ⟨run, rfl⟩]
      rfl

theorem toInt64?_eq_some_iff {s : Bytes} {v : Int} :
    toInt64? s = some v ↔ IsInteger s v ∧ -2 ^ 63 ≤ v ∧ v < 2 ^ 63 := by
  rw [← toInt?_eq_some_iff]
  unfold toInt64?
  cases toInt? s with
  | none => simp
  | some v' =>
    by_cases inside : -9223372036854775808 ≤ v' ∧ v' < 9223372036854775808
    · simp only [if_pos inside, Option.some_inj]
      constructor
      · rintro rfl
        exact ⟨rfl, inside⟩
      · exact And.left
    · simp only [if_neg inside, Option.some_inj]
      constructor
      · intro h
        cases h
      · rintro ⟨rfl, range⟩
        exact absurd range inside

/-- A text stands for one integer at most. -/
theorem IsInteger.unique {s : Bytes} {v v' : Int} (h : IsInteger s v) (h' : IsInteger s v') :
    v = v' :=
  Option.some.inj ((toInt?_eq_some_iff.mpr h).symm.trans (toInt?_eq_some_iff.mpr h'))

end TreeWat.Bytes
