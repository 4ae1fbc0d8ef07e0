import Mathlib.Data.List.Basic
import TreeWat.Text.Blank
import TreeWat.Proofs.Text.Line
set_option autoImplicit false

/-!
# Text: white space at the ends of a text

Where a text begins with a word of ASCII behind some tabs, trimming takes the tabs off and
leaves the word, whatever follows it.

Main statement: `trim_tabs`.
-/

namespace TreeWat

namespace Utf8

/-- The unit that a byte of ASCII is. -/
def Piece.ofLow (b : UInt8) : Piece :=
  .scalar b.toNat [b]

theorem pieces_cons_low {b : UInt8} (low : b < 0x80) (r : Bytes) :
    pieces (b :: r) = .ofLow b :: pieces r := by
  have hscalar : scalar? b r = some (b.toNat, 0) := by rw [scalar?, if_pos low]
  simp [pieces, piecesFrom, hscalar, Piece.ofLow]

theorem pieces_append_low {s : Bytes} (low : ∀ b ∈ s, b < 0x80) (r : Bytes) :
    pieces (s ++ r) = s.map .ofLow ++ pieces r := by
  induction s with
  | nil => rfl
  | cons b s ih =>
    obtain ⟨hb, hs⟩ := List.forall_mem_cons.mp low
    rw [List.cons_append, pieces_cons_low hb, ih hs]
    rfl

theorem bytes_map_ofLow (s : Bytes) : (s.map Piece.ofLow).flatMap Piece.bytes = s := by
  simp [List.flatMap_map, Piece.ofLow, Piece.bytes]

theorem mem_of_mem_piecesFrom {skip : Nat} {s : Bytes} {p : Piece} (hp : p ∈ piecesFrom skip s) :
    ∀ b ∈ p.bytes, b ∈ s := by
  fun_induction piecesFrom skip s with
  | case1 => cases hp
  | case2 b r k ih => exact fun x hx => List.mem_cons_of_mem _ (ih hp x hx)
  | case3 b r _ ih =>
    rcases List.mem_cons.mp hp with rfl | hp
    · simp [Piece.bytes]
    · exact fun x hx => List.mem_cons_of_mem _ (ih hp x hx)
  | case4 b r v k _ ih =>
    rcases List.mem_cons.mp hp with rfl | hp
    · intro x hx
      rcases List.mem_cons.mp hx with rfl | hx
      · exact List.mem_cons_self
      · exact List.mem_cons_of_mem _ (List.mem_of_mem_take hx)
    · exact fun x hx => List.mem_cons_of_mem _ (ih hp x hx)

end Utf8

namespace Text

/-- Trimming only leaves bytes out. -/
theorem mem_of_mem_trim {s : Bytes} {b : UInt8} (hb : b ∈ trim s) : b ∈ s := by
  obtain ⟨p, hp, hb⟩ := List.mem_flatMap.mp hb
  have hinner := (List.dropWhile_sublist _).mem (List.mem_reverse.mp hp)
  have hpiece := (List.dropWhile_sublist _).mem (List.mem_reverse.mp hinner)
  exact Utf8.mem_of_mem_piecesFrom hpiece b hb

theorem oneLine_trim {s : Bytes} (line : OneLine s) : OneLine (trim s) :=
  fun hmem => line (mem_of_mem_trim hmem)

/-- A word of ASCII with no white space at its ends. -/
def isFirm (word : Bytes) : Bool :=
  word.all (· < 0x80) && word.head?.any (fun b => !isBlankScalar b.toNat)
    && word.getLast?.any (fun b => !isBlankScalar b.toNat)

theorem isFirm_iff {word : Bytes} :
    isFirm word = true ↔ (∀ b ∈ word, b < 0x80) ∧
      (∃ b, word.head? = some b ∧ isBlankScalar b.toNat = false) ∧
      ∃ b, word.getLast? = some b ∧ isBlankScalar b.toNat = false := by
  simp [isFirm, Option.any_eq_true, and_assoc]

/-- In front of a word only the tabs are white space. -/
theorem dropWhile_pieces_tabs {word : Bytes} (firm : isFirm word = true) (n : Nat) (r : Bytes) :
    (Utf8.pieces (List.replicate n (byte '\t') ++ (word ++ r))).dropWhile isBlankPiece =
      word.map .ofLow ++ Utf8.pieces r := by
  obtain ⟨low, ⟨first, hfirst, stays⟩, -⟩ := isFirm_iff.mp firm
  have tabsLow : ∀ b ∈ List.replicate n (byte '\t'), b < 0x80 := by
    intro b hb
    rw [List.eq_of_mem_replicate hb]
    decide
  have tabsGo : ∀ p ∈ (List.replicate n (byte '\t')).map Utf8.Piece.ofLow,
      isBlankPiece p = true := by
    intro p hp
    obtain ⟨b, hb, rfl⟩ := List.mem_map.mp hp
    rw [List.eq_of_mem_replicate hb]
    decide
  rw [Utf8.pieces_append_low tabsLow, Utf8.pieces_append_low low,
    List.dropWhile_append_of_pos tabsGo]
  obtain ⟨more, rfl⟩ := List.head?_eq_some_iff.mp hfirst
  simp [Utf8.Piece.ofLow, isBlankPiece, stays]

/-- Trimming takes the tabs in front of a word off and leaves the word. -/
theorem trim_tabs {word : Bytes} (firm : isFirm word = true) (n : Nat) (r : Bytes) :
    word <+: trim (List.replicate n (byte '\t') ++ (word ++ r)) := by
  obtain ⟨-, -, last, hlast, stays⟩ := isFirm_iff.mp firm
  have hback : (word.map Utf8.Piece.ofLow).reverse.dropWhile isBlankPiece =
      (word.map Utf8.Piece.ofLow).reverse := by
    obtain ⟨more, rfl⟩ := List.getLast?_eq_some_iff.mp hlast
    simp [Utf8.Piece.ofLow, isBlankPiece, stays]
  -- what is taken off at the end ends behind the word
  obtain ⟨left, hleft⟩ : ∃ left, (word.map Utf8.Piece.ofLow ++ Utf8.pieces r).reverse.dropWhile
      isBlankPiece = left ++ (word.map Utf8.Piece.ofLow).reverse := by
    rw [List.reverse_append, List.dropWhile_append]
    split
    · exact ⟨[], hback⟩
    · exact ⟨_, rfl⟩
  refine ⟨left.reverse.flatMap Utf8.Piece.bytes, ?_⟩
  rw [trim, dropWhile_pieces_tabs firm, hleft, List.reverse_append, List.reverse_reverse,
    List.flatMap_append, Utf8.bytes_map_ofLow]

end Text

end TreeWat
