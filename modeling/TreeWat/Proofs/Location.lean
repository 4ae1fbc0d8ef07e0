import Mathlib.Data.List.DropRight
import TreeWat.Proofs.Datum.Grammar
set_option autoImplicit false

/-!
# Locations: lines and columns

A location is carried along byte by byte.  Seen from the text, the line is counted by the
line breaks in front, and the column by the bytes behind the last of them (`skip_start`).
Different places of one text have different locations (`skip_start_injective`), so that a
location is as good as the number of bytes in front.
-/

namespace TreeWat.Location

/-- The first location comes in front of the second in reading order. -/
def Before (l l' : Location) : Prop :=
  l.line < l'.line ∨ l.line = l'.line ∧ l.column < l'.column

theorem Before.trans {l₁ l₂ l₃ : Location} (h₁ : l₁.Before l₂) (h₂ : l₂.Before l₃) :
    l₁.Before l₃ := by
  unfold Before at *
  omega

theorem Before.irrefl (l : Location) : ¬l.Before l := by
  unfold Before
  omega

theorem before_next (l : Location) (b : UInt8) : l.Before (l.next b) := by
  unfold next Before
  split
  · exact .inl (by simp only; omega)
  · exact .inr ⟨rfl, by simp only; omega⟩

theorem before_skip {s : Bytes} (some : s ≠ []) (l : Location) : l.Before (l.skip s) := by
  induction s generalizing l with
  | nil => exact absurd rfl some
  | cons b s ih =>
    rw [skip_cons]
    cases s with
    | nil => exact before_next l b
    | cons b' s => exact (before_next l b).trans (ih (by simp) _)

/-- The location behind a text. -/
theorem skip_start (s : Bytes) :
    start.skip s =
      ⟨1 + s.count (byte '\n'), 1 + (s.rtakeWhile (· ≠ byte '\n')).length⟩ := by
  induction s using List.reverseRecOn with
  | nil => rfl
  | append_singleton s b ih =>
    rw [skip_append, ih, skip_cons, skip_nil, next]
    by_cases newline : b = byte '\n'
    · subst newline
      rw [if_pos rfl, List.rtakeWhile_concat_neg _ _ _ (by simp)]
      simp
      omega
    · rw [if_neg newline, List.rtakeWhile_concat_pos _ _ _ (by simpa using newline)]
      simp [newline]
      omega

/-- A longer beginning of a text ends later. -/
theorem before_of_take_lt {s : Bytes} {o o' : Nat} (hlt : o < o') (hle : o' ≤ s.length) :
    (start.skip (s.take o)).Before (start.skip (s.take o')) := by
  have hsplit : s.take o' = s.take o ++ (s.take o').drop o := by
    have hfront : (s.take o').take o = s.take o := by
      rw [List.take_take, Nat.min_eq_left hlt.le]
    rw [← hfront, List.take_append_drop]
  have hsome : (s.take o').drop o ≠ [] := by
    intro hnil
    have := congrArg List.length hnil
    simp at this
    omega
  rw [hsplit, skip_append]
  exact before_skip hsome _

/-- Different places of a text have different locations. -/
theorem skip_start_injective {s : Bytes} {o o' : Nat} (hle : o ≤ s.length) (hle' : o' ≤ s.length)
    (same : start.skip (s.take o) = start.skip (s.take o')) : o = o' := by
  rcases Nat.lt_trichotomy o o' with hlt | heq | hlt
  · exact absurd (same ▸ before_of_take_lt hlt hle') (Before.irrefl _)
  · exact heq
  · exact absurd (same ▸ before_of_take_lt hlt hle) (Before.irrefl _)

end TreeWat.Location
