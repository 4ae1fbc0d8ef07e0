import Mathlib.Data.List.Basic
import TreeWat.Proofs.Text.Line
set_option autoImplicit false

/-!
# Text: the rows of a text

A reader of a text knows only where it is broken.  Its rows are what lies between two line
breaks, each with the break behind it, and a row is a comment if its first bytes are two
semicolons, tabs left out.  A writer that prints a line whose text has a break in it has
written two rows.  Splitting a text at a byte is the same without the breaks.

Main statements: `rows_append_break`, that breaks cut a text,
`withoutCommentRows_idem`, that a text whose comment rows were left out has none, and
`Bytes.split_join`, that joined pieces are found again.
-/

namespace TreeWat

/-- The text cut behind every line break. -/
def rows : Bytes → List Bytes
  | [] => []
  | b :: r =>
    if b = byte '\n' then [b] :: rows r
    else match rows r with
      | [] => [[b]]
      | row :: more => (b :: row) :: more

/-- The first bytes behind the tabs are two semicolons. -/
def isCommentRow (row : Bytes) : Bool :=
  Bytes.startsWith (row.dropWhile (· == byte '\t')) (utf8 ";;")

/-- The text without the rows that are comments. -/
def withoutCommentRows (t : Bytes) : Bytes :=
  ((rows t).filter fun row => !isCommentRow row).flatten

/-! ## Rows -/

@[simp] theorem rows_nil : rows [] = [] := rfl

theorem rows_break (r : Bytes) : rows (byte '\n' :: r) = [byte '\n'] :: rows r := by
  rw [rows, if_pos rfl]

theorem rows_cons {b : UInt8} {r row : Bytes} {more : List Bytes} (other : b ≠ byte '\n')
    (h : rows r = row :: more) : rows (b :: r) = (b :: row) :: more := by
  rw [rows, if_neg other, h]

theorem rows_eq_nil_iff {t : Bytes} : rows t = [] ↔ t = [] := by
  refine ⟨fun h => ?_, by rintro rfl; rfl⟩
  cases t with
  | nil => rfl
  | cons b r =>
    rw [rows] at h
    split at h
    · cases h
    · split at h <;> cases h

/-- Nothing is lost by cutting. -/
theorem rows_flatten (t : Bytes) : (rows t).flatten = t := by
  fun_induction rows t with
  | case1 => rfl
  | case2 r ih => simp [ih]
  | case3 b r _ hrows ih =>
    obtain rfl := rows_eq_nil_iff.mp hrows
    simp
  | case4 b r _ row more hrows ih =>
    rw [hrows] at ih
    simpa using ih

/-- A break ends the row in front of it, and what follows is cut on its own. -/
theorem rows_append_break (s t : Bytes) :
    rows (s ++ [byte '\n'] ++ t) = rows (s ++ [byte '\n']) ++ rows t := by
  induction s with
  | nil => simp [rows_break]
  | cons b r ih =>
    simp only [List.cons_append]
    by_cases hb : b = byte '\n'
    · subst hb
      rw [rows_break, rows_break, ih]
      rfl
    · cases hrows : rows (r ++ [byte '\n']) with
      | nil =>
        have hempty := rows_eq_nil_iff.mp hrows
        simp at hempty
      | cons row more =>
        rw [hrows] at ih
        rw [rows_cons hb hrows, rows_cons hb ih]
        rfl

/-- A text without breaks is one row, up to the break that ends it. -/
theorem rows_line {s : Bytes} (h : OneLine s) : rows (s ++ [byte '\n']) = [s ++ [byte '\n']] := by
  induction s with
  | nil => rfl
  | cons b r ih =>
    obtain ⟨hb, hr⟩ := oneLine_cons.mp h
    exact rows_cons hb (ih hr)

/-- Pieces that are the rows of their text: every one but the last ends in a break, and there
is no other break. -/
inductive AreRows : List Bytes → Prop where
  | nil : AreRows []
  | last {s : Bytes} (notEmpty : s ≠ []) (line : OneLine s) : AreRows [s]
  | cons {s : Bytes} {more : List Bytes} (line : OneLine s) (others : AreRows more) :
      AreRows ((s ++ [byte '\n']) :: more)

theorem AreRows.rows_flatten {pieces : List Bytes} (h : AreRows pieces) :
    rows pieces.flatten = pieces := by
  induction h with
  | nil => rfl
  | @last s notEmpty line =>
    rw [List.flatten_singleton]
    induction s with
    | nil => contradiction
    | cons b r ih =>
      obtain ⟨hb, hr⟩ := oneLine_cons.mp line
      by_cases hempty : r = []
      · subst hempty
        rw [rows, if_neg hb]
        rfl
      · exact rows_cons hb (ih hempty hr)
  | cons line _ ih => rw [List.flatten_cons, rows_append_break, rows_line line, ih]; rfl

theorem areRows_rows (t : Bytes) : AreRows (rows t) := by
  fun_induction rows t with
  | case1 => exact .nil
  | case2 r ih => exact .cons (s := []) oneLine_nil ih
  | case3 b r hb _ _ => exact .last (by simp) (by simpa using hb)
  | case4 b r hb row more hrows ih =>
    rw [hrows] at ih
    cases ih with
    | last notEmpty line => exact .last (by simp) (oneLine_cons.mpr ⟨hb, line⟩)
    | @cons s _ line others => exact .cons (s := b :: s) (oneLine_cons.mpr ⟨hb, line⟩) others

theorem AreRows.ne_nil {pieces : List Bytes} (h : AreRows pieces) :
    ∀ row ∈ pieces, row ≠ [] := by
  induction h with
  | nil => simp
  | last notEmpty _ => simpa using notEmpty
  | cons _ _ ih => exact List.forall_mem_cons.mpr ⟨by simp, ih⟩

/-- Rows stay rows if some are left out. -/
theorem AreRows.filter {pieces : List Bytes} (h : AreRows pieces) (p : Bytes → Bool) :
    AreRows (pieces.filter p) := by
  induction h with
  | nil => exact .nil
  | @last s notEmpty line =>
    rw [List.filter_cons]
    split
    · exact .last notEmpty line
    · exact .nil
  | @cons s more line _ ih =>
    rw [List.filter_cons]
    split
    · exact .cons line ih
    · exact ih

/-! ## Comment rows -/

/-- A text whose comment rows were left out has none. -/
theorem withoutCommentRows_idem (t : Bytes) :
    withoutCommentRows (withoutCommentRows t) = withoutCommentRows t := by
  unfold withoutCommentRows
  rw [((areRows_rows t).filter _).rows_flatten, List.filter_filter]
  simp

theorem withoutCommentRows_append_break (s t : Bytes) :
    withoutCommentRows (s ++ [byte '\n'] ++ t) =
      withoutCommentRows (s ++ [byte '\n']) ++ withoutCommentRows t := by
  unfold withoutCommentRows
  rw [rows_append_break, List.filter_append, List.flatten_append]

@[simp] theorem isCommentRow_semicolons (r : Bytes) :
    isCommentRow (byte ';' :: byte ';' :: r) = true := by
  have noTab : (byte ';' == byte '\t') = false := by decide
  simp only [isCommentRow, List.dropWhile_cons, noTab]
  rfl

/-- Tabs in front do not matter. -/
theorem isCommentRow_tab (row : Bytes) : isCommentRow (byte '\t' :: row) = isCommentRow row := by
  simp [isCommentRow]

/-- The break at the end does not matter. -/
theorem isCommentRow_break (s : Bytes) : isCommentRow (s ++ [byte '\n']) = isCommentRow s := by
  induction s with
  | nil => decide
  | cons b r ih =>
    by_cases hb : b = byte '\t'
    · subst hb
      rw [List.cons_append, isCommentRow_tab, isCommentRow_tab, ih]
    · have hb' : (b == byte '\t') = false := by simpa using hb
      have semicolons : utf8 ";;" = [byte ';', byte ';'] := by decide
      have other : (byte ';' == byte '\n') = false := by decide
      simp only [isCommentRow, Bytes.startsWith, List.cons_append, List.dropWhile_cons, hb',
        semicolons]
      cases r with
      | nil => simp [List.isPrefixOf, other]
      | cons c r => simp [List.isPrefixOf]

/-- Nothing is left of a text if all its rows are comments. -/
theorem withoutCommentRows_eq_nil_iff {t : Bytes} :
    withoutCommentRows t = [] ↔ ∀ row ∈ rows t, isCommentRow row = true := by
  have notEmpty := (areRows_rows t).ne_nil
  simp only [withoutCommentRows, List.flatten_eq_nil_iff, List.mem_filter, Bool.not_eq_true',
    and_imp]
  refine forall₂_congr fun row hrow => ?_
  cases isCommentRow row with
  | true => simp
  | false => simpa using notEmpty row hrow

theorem withoutCommentRows_tabs {s : Bytes} (notEmpty : s ≠ []) (n : Nat) :
    withoutCommentRows (List.replicate n (byte '\t') ++ s) = [] ↔ withoutCommentRows s = [] := by
  induction n with
  | zero => rfl
  | succ n ih =>
    rw [← ih, List.replicate_succ, List.cons_append, withoutCommentRows_eq_nil_iff,
      withoutCommentRows_eq_nil_iff]
    cases hrows : rows (List.replicate n (byte '\t') ++ s) with
    | nil => simp [notEmpty, rows_eq_nil_iff] at hrows
    | cons row more =>
      rw [rows_cons (by decide) hrows, List.forall_mem_cons, List.forall_mem_cons,
        isCommentRow_tab]

/-- A text without breaks is left out or kept as a whole. -/
theorem withoutCommentRows_line {s : Bytes} (line : OneLine s) :
    withoutCommentRows (s ++ [byte '\n']) =
      if isCommentRow s = true then [] else s ++ [byte '\n'] := by
  rw [withoutCommentRows, rows_line line, List.filter_cons, isCommentRow_break]
  cases isCommentRow s <;> simp

theorem isCommentRow_tabs (s : Bytes) (n : Nat) :
    isCommentRow (List.replicate n (byte '\t') ++ s) = isCommentRow s := by
  induction n with
  | zero => rfl
  | succ n ih => rw [List.replicate_succ, List.cons_append, isCommentRow_tab, ih]

/-! ## Splitting at a byte

Splitting leaves the separators out, so that the last piece is empty if the text ends in
one. -/

namespace Bytes

variable {sep : UInt8}

theorem split_ne_nil (sep : UInt8) (s : Bytes) : split sep s ≠ [] := by
  cases s with
  | nil => simp [split]
  | cons b r =>
    rw [split]
    split
    · simp
    · split <;> simp

/-- A separator ends the piece in front of it, and what follows is split on its own. -/
theorem split_append (s t : Bytes) :
    split sep (s ++ sep :: t) = split sep s ++ split sep t := by
  induction s with
  | nil => simp [split]
  | cons b s ih =>
    rw [List.cons_append, split, split, ih]
    split
    · rfl
    · cases hpieces : split sep s with
      | nil => exact absurd hpieces (split_ne_nil sep s)
      | cons piece more => rfl

theorem split_single {s : Bytes} (whole : sep ∉ s) : split sep s = [s] := by
  induction s with
  | nil => rfl
  | cons b s ih =>
    rw [List.mem_cons, not_or] at whole
    rw [split, if_neg (Ne.symm whole.1), ih whole.2]

/-- Pieces without the separator are found again in the text that joins them. -/
theorem split_join {pieces : List Bytes} (some : pieces ≠ [])
    (whole : ∀ p ∈ pieces, sep ∉ p) : split sep (join [sep] pieces) = pieces := by
  fun_induction join [sep] pieces with
  | case1 => contradiction
  | case2 s => exact split_single (whole s List.mem_cons_self)
  | case3 s r rest ih =>
    obtain ⟨hs, hr⟩ := List.forall_mem_cons.mp whole
    have hrest : r ≠ [] := fun h => rest (by rw [h])
    rw [List.append_assoc, List.singleton_append, split_append, split_single hs, ih hrest hr]
    rfl

end Bytes

end TreeWat
