import TreeWat.Proofs.Check.Notes
import TreeWat.Proofs.Lower.Accepted
import TreeWat.Proofs.Source.Numerals
import TreeWat.Proofs.Tree.Literals
import TreeWat.Proofs.Wat.Arithmetic
import TreeWat.Proofs.Wat.NumberText
set_option autoImplicit false

/-!
# Lower: what becomes of a literal

The text of a literal goes to the module as it stands in the source, with its sign and its
zeros.  `Denotes` says that an expression stands for a word: evaluation gives the word, the code
pushes it, and neither does anything else.

Main statement: each literal of a tree that was read stands for its value, and so does a
negation of a literal (`literals_keep_value`).  The operand is a number of the format of modules
with one exception: the magnitude of the least number is admitted below a negation with a plus
sign in front of it as well, and the format has no signed number of that size.  The machine,
which reads an operand by its value alone, does not tell this one from the others.
-/

namespace TreeWat

open Bytes (IsInteger)

/-- The numerals that stand for a word. -/
theorem Word.ofNumeral?_eq_some_iff {text : Bytes} {w : Word} :
    Word.ofNumeral? text = some w ↔
      ∃ v, IsInteger text v ∧ -2 ^ 31 ≤ v ∧ v < 2 ^ 32 ∧ w = BitVec.ofInt 32 v := by
  unfold Word.ofNumeral?
  cases hvalue : Bytes.toInt? text with
  | none =>
    constructor
    · intro h
      cases h
    · rintro ⟨v, isInteger, -⟩
      rw [Bytes.toInt?_eq_some_iff.mpr isInteger] at hvalue
      cases hvalue
  | some v =>
    have isInteger := Bytes.toInt?_eq_some_iff.mp hvalue
    dsimp only
    constructor
    · intro h
      split at h
      · rename_i range
        cases h
        exact ⟨v, isInteger, range.1, range.2, rfl⟩
      · cases h
    · rintro ⟨v', isInteger', low, high, rfl⟩
      obtain rfl := isInteger.unique isInteger'
      exact if_pos ⟨low, high⟩

namespace Node

theorem Noted.exists_child {n n' c' : Node} (h : n.Noted n') (hc : c' ∈ n'.children) :
    ∃ c ∈ n.children, c.Noted c' := by
  have below := h.all_children
  generalize n.children = cs at below ⊢
  generalize n'.children = cs' at below hc
  induction below with
  | nil => cases hc
  | cons first others ih =>
    rcases List.mem_cons.mp hc with rfl | hc
    · exact ⟨_, List.mem_cons_self, first⟩
    · obtain ⟨c, hc, noted⟩ := ih hc
      exact ⟨c, List.mem_cons_of_mem _ hc, noted⟩

/-- A node with notes stands where it stood without them. -/
theorem Noted.occurs {t t' n' : Node} {parent : Option Kind} (h : t.Noted t')
    (occurs : t'.Occurs parent n') : ∃ n, t.Occurs parent n ∧ n.Noted n' := by
  cases occurs with
  | root => exact ⟨t, .root, h⟩
  | child inside below =>
    obtain ⟨p, hp, noted⟩ := h.exists_mem_preorder inside
    obtain ⟨n, hn, same⟩ := noted.exists_child below
    rw [noted.kind_eq]
    exact ⟨n, .child hp hn, same⟩

theorem Noted.children_eq_nil {n n' : Node} (h : n.Noted n') (none : n.children = []) :
    n'.children = [] := by
  have below := h.all_children
  rw [none] at below
  exact List.forall₂_nil_left_iff.mp below

end Node

namespace Lower

open Wat (Code Op execCode)

/-! ## What an expression stands for -/

/-- Evaluating the expression gives the word, and its code pushes the word. -/
structure Denotes (n : Node) (w : Word) : Prop where
  value : ∀ (I : Source.Interpreter) (σ : Source.Scene), Source.eval I n σ = pure (.int w, σ)
  code : ∀ (env : Env) (s : State), ∃ code, expression env n s = .ok (code, s) ∧
    ∀ (M : Wat.Machine) (rest : Code) (stack : List Word) (locals : Bytes → Option Word)
      (store : Store Word), execCode M (code ++ rest) ⟨stack, locals, store⟩ =
        execCode M rest ⟨w :: stack, locals, store⟩

section Expressions

variable {n : Node} {w : Word}

/-- The text of a literal is the operand. -/
theorem expression_number (isNum : n.kind = .num) (env : Env) (s : State) :
    expression env n s = .ok ([.op (.const n.attr)], s) := by
  rcases n with ⟨kind, attr, loc, note, children⟩
  cases isNum
  rw [expression]
  rfl

theorem denotes_number (isNum : n.kind = .num) (isWord : Word.ofNumeral? n.attr = some w) :
    Denotes n w where
  value := by
    intro I σ
    rcases n with ⟨kind, attr, loc, note, children⟩
    cases isNum
    rw [Source.eval, isWord]
    rfl
  code := by
    intro env s
    refine ⟨_, expression_number isNum env s, ?_⟩
    intro M rest stack locals store
    exact Wat.exec_const isWord

/-- A negation is a subtraction from zero, which wraps as the negation of words does. -/
theorem Denotes.neg {e : Node} (isNeg : n.kind = .unary .neg) (operand : n.children = [e])
    (h : Denotes e w) : Denotes n (-w) where
  value := by
    intro I σ
    rcases n with ⟨kind, attr, loc, note, children⟩
    cases isNeg
    cases operand
    rw [Source.eval, h.value I σ]
    rfl
  code := by
    intro env s
    obtain ⟨code, hcode, hexec⟩ := h.code env s
    refine ⟨[.op (.number 0)] ++ code ++ [.op (.arith .sub)], ?_, ?_⟩
    · rcases n with ⟨kind, attr, loc, note, children⟩
      cases isNeg
      cases operand
      rw [expression, step_bind hcode]
      rfl
    · intro M rest stack locals store
      have hneg : Wat.Arith.sub.apply (BitVec.ofInt 32 0) w = some (-w) :=
        congrArg some (BitVec.zero_sub w)
      rw [List.append_assoc, List.append_assoc, List.singleton_append,
        Wat.exec_number (by decide) (by decide), hexec, List.singleton_append,
        Wat.exec_arith hneg]

end Expressions

/-! ## The literals of a program -/

/-- What becomes of a literal with the value `v` right below a node of kind `parent`. -/
structure LiteralKept (parent : Option Kind) (n : Node) (v : Int) : Prop where
  spelled : IsInteger n.attr v
  fits : Fits parent v
  /-- The operand is the text of the literal. -/
  operand : ∀ (env : Env) (s : State), expression env n s = .ok ([.op (.const n.attr)], s)
  /-- The operand is a number of the format, and stands for the value modulo 2³², unless it is
  the magnitude of the least number with a plus sign. -/
  written : ∀ w, Wat.NumberText n.attr w ↔
    w = BitVec.ofInt 32 v ∧ ¬(v = 2 ^ 31 ∧ n.attr.head? = some (byte '+'))
  denotes : Denotes n (BitVec.ofInt 32 v)
  /-- The word has the value, unless it is the magnitude of the least number. -/
  value : v < 2 ^ 31 → (BitVec.ofInt 32 v).toInt = v

theorem literalKept_of_fits {n : Node} {parent : Option Kind} {v : Int} (isNum : n.kind = .num)
    (spelled : IsInteger n.attr v) (fits : Fits parent v) : LiteralKept parent n v where
  spelled := spelled
  fits := fits
  operand := expression_number isNum
  written := by
    intro w
    obtain ⟨low, high⟩ := fits.range
    rw [Wat.numberText_iff_of_isInteger spelled]
    refine and_congr_right' ?_
    split
    · rename_i isPlus
      simp only [isPlus, and_true]
      constructor
      · rintro ⟨-, below⟩
        omega
      · intro other
        omega
    · rename_i noPlus
      simp only [noPlus, and_false, not_false_eq_true, iff_true]
      omega
  denotes := by
    obtain ⟨low, high⟩ := fits.range
    exact denotes_number isNum (Word.ofNumeral?_eq_some_iff.mpr ⟨v, spelled, low, by omega, rfl⟩)
  value := Wat.toInt_ofInt fits.1

/-- The literals of a tree that was read, with or without notes, are kept. -/
theorem exists_literalKept {src : Bytes} {t t' n : Node} {parent : Option Kind}
    (hread : Tree.read src = .ok t) (noted : t.Noted t') (occurs : t'.Occurs parent n)
    (isNum : n.kind = .num) : n.children = [] ∧ ∃ v, LiteralKept parent n v := by
  obtain ⟨m, hm, same⟩ := noted.occurs occurs
  have formed : m.WellFormed parent := (Node.wellFormed_of_read hread).1.occurs hm
  obtain ⟨childless, v, spelled, fits⟩ := formed.integer (same.kind_eq ▸ isNum)
  rw [← same.attr_eq] at spelled
  exact ⟨same.children_eq_nil childless, v, literalKept_of_fits isNum spelled fits⟩

/-- A program that was read never stops at a literal. -/
theorem runProgram_avoids_of_read {src : Bytes} {t : Node} (hread : Tree.read src = .ok t)
    (input : Nat → Word) (fuel : Nat) :
    Run.Avoids .numeral (Source.runProgram t input fuel) := by
  refine Source.runProgram_avoids ?_ input fuel
  intro n hn isNum
  obtain ⟨parent, occurs⟩ := Node.exists_occurs hn
  obtain ⟨-, v, kept⟩ := exists_literalKept hread (.refl t) occurs isNum
  obtain ⟨low, high⟩ := kept.fits.range
  rw [Word.ofNumeral?_eq_some_iff.mpr ⟨v, kept.spelled, low, by omega, rfl⟩]
  rfl

/-- Integer literals keep their value.

A text is read as a tree exactly if it spells a datum that describes the tree, where a literal
is described by any atom whose text is an integer that fits: at least -2³¹, and less than 2³¹ or
else 2³¹ right below a negation.  Such a text can be written as an integer and as a string.
Each literal of the tree, before and after the checker has put its notes there, is the operand
of its code as it stands and stands for its value modulo 2³².  The operand is a number of the
format, with this meaning, unless its value is 2³¹ and it has a plus sign.  A negated literal
stands for the negated value, the least number included. -/
theorem literals_keep_value (src : Bytes) :
    (∀ t, Tree.read src = .ok t ↔ ∃ d, Datum.Derives src d ∧ Tree.Describes none d t) ∧
    (∀ (text : Bytes) (v : Int), IsInteger text v → ∀ (loc : Location) (rest : Bytes),
      ((∀ b ∈ rest.head?, Bytes.isDigit b = false) →
        Datum.Spells loc text rest (.atom .integer loc text)) ∧
      Datum.Spells loc (byte '"' :: (text ++ [byte '"'])) rest (.atom .string loc text)) ∧
    ∀ t t', Tree.read src = .ok t → t.Noted t' →
      (∀ parent n, t'.Occurs parent n → n.kind = .num →
        n.children = [] ∧ ∃ v, LiteralKept parent n v) ∧
      ∀ n ∈ t'.preorder, ∀ e, n.kind = .unary .neg → n.children = [e] → e.kind = .num →
        ∃ v, IsInteger e.attr v ∧ Denotes n (BitVec.ofInt 32 (-v)) ∧
          (-2 ^ 31 ≤ -v → -v < 2 ^ 31 → (BitVec.ofInt 32 (-v)).toInt = -v) := by
  refine ⟨fun t => Tree.read_ok_iff, ?_, ?_⟩
  · intro text v isInteger loc rest
    exact ⟨isInteger.spells_integer loc, isInteger.spells_string loc rest⟩
  · intro t t' hread noted
    refine ⟨fun parent n occurs isNum => exists_literalKept hread noted occurs isNum, ?_⟩
    intro n hn e isNeg operand isNum
    have occurs : t'.Occurs (some n.kind) e := .child hn (by simp [operand])
    obtain ⟨-, v, kept⟩ := exists_literalKept hread noted occurs isNum
    refine ⟨v, kept.spelled, ?_, Wat.toInt_ofInt⟩
    rw [BitVec.ofInt_neg]
    exact kept.denotes.neg isNeg operand

/-- The magnitude of the least number, with a plus sign and a negation in front:

    -+2147483648 -/
def signedMagnitude : Node :=
  .branch (.unary .neg) .nowhere [.leaf .num (utf8 "+2147483648") .nowhere]

/-- The literal is read, and its operand is no number of the format. -/
theorem signedMagnitude_written :
    ∃ t n v, Tree.read signedMagnitude.format = .ok t ∧ t.Occurs (some (.unary .neg)) n ∧
      LiteralKept (some (.unary .neg)) n v ∧ n.attr = utf8 "+2147483648" ∧
      ∀ w, ¬Wat.NumberText n.attr w := by
  have formed : signedMagnitude.WellFormed none := by decide +kernel
  obtain ⟨t, hread, hbare⟩ := formed.read_format
  obtain ⟨n, occurs, isNum, text⟩ : ∃ n, t.Occurs (some (.unary .neg)) n ∧ n.kind = .num ∧
      n.attr = utf8 "+2147483648" := by
    rcases t with ⟨kind, attr, loc, note, _ | ⟨⟨kind', attr', loc', note', children⟩, rest⟩⟩
    · cases hbare
    · simp only [Node.bare, Node.without, Node.withoutAll, signedMagnitude, Node.branch, Node.leaf,
        Node.mk.injEq, List.cons.injEq] at hbare
      obtain ⟨rfl, -, -, -, ⟨rfl, rfl, -⟩, -⟩ := hbare
      exact ⟨_, .child (Node.mem_preorder_self _) List.mem_cons_self, rfl, rfl⟩
  obtain ⟨-, -, literals⟩ := literals_keep_value signedMagnitude.format
  obtain ⟨-, v, kept⟩ := (literals t t hread (.refl t)).1 _ n occurs isNum
  have isMagnitude : v = 2 ^ 31 := by
    have value : Bytes.toInt? (utf8 "+2147483648") = some (2 ^ 31) := by decide
    exact (text ▸ kept.spelled).unique (Bytes.toInt?_eq_some_iff.mp value)
  refine ⟨t, n, v, hread, occurs, kept, text, fun w legal => ?_⟩
  exact ((kept.written w).mp legal).2 ⟨isMagnitude, by rw [text]; decide⟩

end Lower

end TreeWat
