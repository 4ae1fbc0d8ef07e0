import TreeWat.Proofs.Datum.Grammar
import TreeWat.Proofs.Text.Integer
import TreeWat.Proofs.Tree.Roundtrip
set_option autoImplicit false

/-!
# Trees: which literals are read

A number has to fit in 32 bits, where the magnitude of the least number is admitted right below
a negation only.  `Fits` says this of the value; the reader checks the text, with a limit that
it hands down from the node above.

`Describes` relates data and trees without a reader: a datum describes a tree if its items do,
and an item that is a number has to fit where it stands.  A text is read as a tree exactly if
the grammar derives from it a datum that describes the tree (`read_ok_iff`), so that nothing
apart from its value decides whether a literal is admitted, neither the way it is spelled nor
whether it stands in quotes.
-/

namespace TreeWat

open Bytes (IsInteger)

/-! ## One literal -/

/-- The value is admitted for a number right below a node of kind `parent`. -/
def Fits (parent : Option Kind) (v : Int) : Prop :=
  -2 ^ 31 ≤ v ∧ (v < 2 ^ 31 ∨ (v = 2 ^ 31 ∧ parent = some (.unary .neg)))

theorem fits_iff_le_literalLimit {parent : Option Kind} {v : Int} :
    Fits parent v ↔ ¬(v < -2147483648 ∨ Tree.literalLimit parent < v) := by
  unfold Fits Tree.literalLimit
  by_cases h : parent = some (.unary .neg)
  · rw [if_pos h]
    simp only [h, and_true]
    omega
  · rw [if_neg h]
    simp only [h, and_false, or_false]
    omega

theorem Fits.range {parent : Option Kind} {v : Int} (fits : Fits parent v) :
    -2 ^ 31 ≤ v ∧ v ≤ 2 ^ 31 := by
  unfold Fits at fits
  omega

/-- A literal is admitted exactly if it is an integer that fits.  The bound of 64 bits that the
reader meets first refuses nothing that fits. -/
theorem Tree.checkLiteral_ok_iff {text : Bytes} {parent : Option Kind} :
    checkLiteral text parent = .ok () ↔ ∃ v, IsInteger text v ∧ Fits parent v := by
  unfold checkLiteral
  cases hvalue : Bytes.toInt64? text with
  | none =>
    constructor
    · intro h
      cases h
    · rintro ⟨v, isInteger, fits⟩
      have range := fits.range
      rw [Bytes.toInt64?_eq_some_iff.mpr ⟨isInteger, by omega, by omega⟩] at hvalue
      cases hvalue
  | some v =>
    obtain ⟨isInteger, -⟩ := Bytes.toInt64?_eq_some_iff.mp hvalue
    dsimp only
    constructor
    · intro h
      split at h
      · cases h
      · rename_i inside
        exact ⟨v, isInteger, fits_iff_le_literalLimit.mpr inside⟩
    · rintro ⟨v', isInteger', fits⟩
      obtain rfl := isInteger.unique isInteger'
      rw [if_neg (fits_iff_le_literalLimit.mp fits)]

/-! ## Two spellings -/

namespace Bytes.IsInteger

variable {text : Bytes} {v : Int}

theorem isNumeral (h : IsInteger text v) : Datum.IsNumeral text := by
  cases h with
  | bare run => exact ⟨[], _, rfl, by simp, run.nonempty, run.digit⟩
  | plus run => exact ⟨[byte '+'], _, rfl, by simp, run.nonempty, run.digit⟩
  | minus run => exact ⟨[byte '-'], _, rfl, by simp, run.nonempty, run.digit⟩

/-- Written as an integer, the text ends where the digits end. -/
theorem spells_integer (h : IsInteger text v) (loc : Location) {rest : Bytes}
    (maximal : ∀ b ∈ rest.head?, Bytes.isDigit b = false) :
    Datum.Spells loc text rest (.atom .integer loc text) :=
  .integer h.isNumeral maximal

end Bytes.IsInteger

/-- A text without quotes and backslashes stands between quotes as it is. -/
theorem Datum.escapes_self {text : Bytes}
    (plain : ∀ b ∈ text, b ≠ byte '"' ∧ b ≠ byte '\\') : Datum.Escapes text text := by
  induction text with
  | nil => exact .none
  | cons b rest ih =>
    obtain ⟨noQuote, noEscape⟩ := plain b List.mem_cons_self
    exact .plain noQuote noEscape (ih fun x hx => plain x (List.mem_cons_of_mem _ hx))

/-- Written as a string, the text stands between quotes as it is. -/
theorem Bytes.IsInteger.spells_string {text : Bytes} {v : Int} (h : IsInteger text v)
    (loc : Location) (rest : Bytes) :
    Datum.Spells loc (byte '"' :: (text ++ [byte '"'])) rest (.atom .string loc text) := by
  have digit : ∀ {b : UInt8}, Bytes.isDigit b = true → b ≠ byte '"' ∧ b ≠ byte '\\' := by
    intro b hb
    constructor
    · rintro rfl
      exact absurd hb (by decide)
    · rintro rfl
      exact absurd hb (by decide)
  refine .string (Datum.escapes_self fun b hb => ?_)
  cases h with
  | bare run => exact digit (run.digit b hb)
  | plus run | minus run =>
    rcases List.mem_cons.mp hb with rfl | hb
    · decide
    · exact digit (run.digit b hb)

/-! ## Where a node stands -/

namespace Node

/-- The node stands somewhere in the tree, below a node of kind `parent` or at its root. -/
inductive Occurs (t : Node) : Option Kind → Node → Prop where
  | root : Occurs t none t
  | child {p n} (inside : p ∈ t.preorder) (below : n ∈ p.children) : Occurs t (some p.kind) n

/-- Every node of a tree stands somewhere in it. -/
theorem exists_occurs {t n : Node} (h : n ∈ t.preorder) : ∃ parent, t.Occurs parent n := by
  induction t using Node.induction with
  | step t ih =>
    rcases Node.mem_preorder.mp h with rfl | h
    · exact ⟨none, .root⟩
    · obtain ⟨c, hc, hn⟩ := mem_preorderAll.mp h
      obtain ⟨parent, occurs⟩ := ih c (mem_descendants_of_child hc) hn
      cases occurs with
      | root => exact ⟨_, .child t.mem_preorder_self hc⟩
      | child inside below => exact ⟨_, .child (mem_preorder_of_child hc inside) below⟩

theorem WellFormed.child {t c : Node} {parent : Option Kind} (h : t.WellFormed parent)
    (hc : c ∈ t.children) : c.WellFormed (some t.kind) := by
  cases h with
  | number spelled fits => cases hc
  | text isText => cases hc
  | branch plain below => exact below c hc

theorem WellFormed.exists_parent {t n : Node} {parent : Option Kind} (h : t.WellFormed parent)
    (hn : n ∈ t.preorder) : ∃ parent', n.WellFormed parent' := by
  induction t using Node.induction generalizing parent with
  | step t ih =>
    rcases Node.mem_preorder.mp hn with rfl | hn
    · exact ⟨parent, h⟩
    · obtain ⟨c, hc, hn⟩ := mem_preorderAll.mp hn
      exact ih c (mem_descendants_of_child hc) (h.child hc) hn

/-- Each node of a well-formed tree is well formed where it stands. -/
theorem WellFormed.occurs {t n : Node} {parent : Option Kind} (h : t.WellFormed none)
    (occurs : t.Occurs parent n) : n.WellFormed parent := by
  cases occurs with
  | root => exact h
  | child inside below =>
    obtain ⟨parent', formed⟩ := h.exists_parent inside
    exact formed.child below

/-- The numbers of a well-formed tree are integers that fit where they stand, with nothing
below them. -/
theorem WellFormed.integer {n : Node} {parent : Option Kind} (h : n.WellFormed parent)
    (isNum : n.kind = .num) : n.children = [] ∧ ∃ v, IsInteger n.attr v ∧ Fits parent v := by
  cases h with
  | number spelled fits => exact ⟨rfl, Tree.checkLiteral_ok_iff.mp fits⟩
  | text isText =>
    subst isNum
    simp at isText
  | branch plain below =>
    subst isNum
    cases plain

end Node

/-! ## The trees that data describe -/

namespace Tree

mutual

/-- The datum describes the tree, below a node of kind `parent`.  A number may stand in any
atom. -/
inductive Describes : Option Kind → Datum → Node → Prop where
  | symbol {parent kind loc} (plain : kind.hasAttr = false) :
      Describes parent (.atom .symbol loc kind.text) (.leaf kind [] loc)
  | value {parent kind loc keys values headLoc sort textLoc text place}
      (hasAttr : kind.hasAttr = true)
      (placed : location (.list loc keys values []) = .ok place)
      (admitted : kind = .num → ∃ v, IsInteger text v ∧ Fits parent v) :
      Describes parent
        (.list loc keys values [.atom .symbol headLoc kind.text, .atom sort textLoc text])
        (.leaf kind text place)
  | branch {parent kind loc keys values headLoc rest place children}
      (plain : kind.hasAttr = false)
      (placed : location (.list loc keys values []) = .ok place)
      (below : DescribesAll kind rest children) :
      Describes parent (.list loc keys values (.atom .symbol headLoc kind.text :: rest))
        (.branch kind place children)

/-- The data describe the trees below a node of kind `parent`, one each. -/
inductive DescribesAll : Kind → List Datum → List Node → Prop where
  | nil {parent} : DescribesAll parent [] []
  | cons {parent d ds n ns} (first : Describes (some parent) d n)
      (others : DescribesAll parent ds ns) : DescribesAll parent (d :: ds) (n :: ns)

end

section Reader

variable {parent : Option Kind} {loc : Location} {keys : List Bytes} {values items : List Datum}
  {n : Node}

theorem eq_text_of_ofText? {name : Bytes} {kind : Kind} (h : Kind.ofText? name = some kind) :
    name = kind.text := by
  have hname := List.find?_some h
  exact (of_decide_eq_true hname).symm

/-- What the reader asks of a list, and the tree it makes. -/
theorem ofDatum_list_ok_iff :
    ofDatum parent (.list loc keys values items) = .ok n ↔
      ∃ kind headLoc rest place, items = .atom .symbol headLoc kind.text :: rest ∧
        location (.list loc keys values []) = .ok place ∧
        ((kind.hasAttr = true ∧ ∃ sort textLoc text, rest = [.atom sort textLoc text] ∧
            (kind = .num → checkLiteral text parent = .ok ()) ∧ n = .leaf kind text place) ∨
          (kind.hasAttr = false ∧ ∃ children, ofData kind rest = .ok children ∧
            n = .branch kind place children)) := by
  constructor
  · intro h
    unfold ofDatum at h
    split at h
    · rename_i headLoc name rest
      split at h
      · cases h
      · rename_i kind hkind
        obtain rfl := eq_text_of_ofText? hkind
        split at h
        · cases h
        · rename_i place placed
          refine ⟨kind, headLoc, rest, place, rfl, placed, ?_⟩
          split at h
          · rename_i hasAttr
            refine .inl ⟨hasAttr, ?_⟩
            split at h
            · rename_i sort textLoc text
              refine ⟨sort, textLoc, text, rfl, ?_⟩
              split at h
              · split at h
                · cases h
                · rename_i admitted
                  cases h
                  exact ⟨fun _ => admitted, rfl⟩
              · rename_i other
                cases h
                exact ⟨fun isNum => absurd isNum other, rfl⟩
            · cases h
          · rename_i plain
            refine .inr ⟨by simpa using plain, ?_⟩
            split at h
            · cases h
            · rename_i children below
              cases h
              exact ⟨children, below, rfl⟩
    · cases h
  · rintro ⟨kind, headLoc, rest, place, rfl, placed,
      ⟨hasAttr, sort, textLoc, text, rfl, admitted, rfl⟩ | ⟨plain, children, below, rfl⟩⟩
    · by_cases isNum : kind = .num
      · have fits := admitted isNum
        subst isNum
        simp [ofDatum, Kind.ofText?_text, placed, hasAttr, fits]
      · simp [ofDatum, Kind.ofText?_text, placed, hasAttr, isNum]
    · simp [ofDatum, Kind.ofText?_text, placed, plain, below]

theorem ofDatum_symbol_ok_iff {name : Bytes} :
    ofDatum parent (.atom .symbol loc name) = .ok n ↔
      ∃ kind, name = kind.text ∧ kind.hasAttr = false ∧ n = .leaf kind [] loc := by
  constructor
  · intro h
    rw [ofDatum] at h
    split at h
    · cases h
    · rename_i kind hkind
      split at h
      · cases h
      · rename_i plain
        cases h
        exact ⟨kind, eq_text_of_ofText? hkind, by simpa using plain, rfl⟩
  · rintro ⟨kind, rfl, plain, rfl⟩
    exact Node.ofDatum_symbol plain

mutual

/-- The reader makes the trees that data describe. -/
theorem ofDatum_ok_iff : ∀ {parent : Option Kind} {d : Datum} {n : Node},
    ofDatum parent d = .ok n ↔ Describes parent d n
  | parent, .atom .symbol loc name, n => by
    rw [ofDatum_symbol_ok_iff]
    constructor
    · rintro ⟨kind, rfl, plain, rfl⟩
      exact .symbol plain
    · intro h
      cases h with
      | symbol plain => exact ⟨_, rfl, plain, rfl⟩
  | parent, .list loc keys values items, n => by
    rw [ofDatum_list_ok_iff]
    constructor
    · rintro ⟨kind, headLoc, rest, place, rfl, placed,
        ⟨hasAttr, sort, textLoc, text, rfl, admitted, rfl⟩ | ⟨plain, children, below, rfl⟩⟩
      · exact .value hasAttr placed fun isNum => checkLiteral_ok_iff.mp (admitted isNum)
      · exact .branch plain placed (ofData_ok_iff.mp below)
    · intro h
      cases h with
      | value hasAttr placed admitted =>
        exact ⟨_, _, _, _, rfl, placed, .inl ⟨hasAttr, _, _, _, rfl,
          fun isNum => checkLiteral_ok_iff.mpr (admitted isNum), rfl⟩⟩
      | branch plain placed below =>
        exact ⟨_, _, _, _, rfl, placed, .inr ⟨plain, _, ofData_ok_iff.mpr below, rfl⟩⟩
  | _, .atom .string _ _, _ | _, .atom .integer _ _, _ | _, .map .., _ | _, .foreign .., _ => by
    constructor
    · intro h
      simp [ofDatum] at h
    · intro h
      cases h
termination_by _ d _ => sizeOf d

theorem ofData_ok_iff : ∀ {kind : Kind} {ds : List Datum} {ns : List Node},
    ofData kind ds = .ok ns ↔ DescribesAll kind ds ns
  | kind, [], ns => by
    rw [ofData]
    constructor
    · intro h
      cases h
      exact .nil
    · intro h
      cases h
      rfl
  | kind, d :: rest, ns => by
    rw [ofData]
    constructor
    · intro h
      split at h
      · cases h
      · rename_i first
        split at h
        · cases h
        · rename_i others
          cases h
          exact .cons (ofDatum_ok_iff.mp first) (ofData_ok_iff.mp others)
    · intro h
      cases h with
      | cons first others => rw [ofDatum_ok_iff.mpr first, ofData_ok_iff.mpr others]
termination_by _ ds _ => sizeOf ds

end

/-- A text is read as a tree exactly if the grammar derives from it a datum that describes the
tree. -/
theorem read_ok_iff {src : Bytes} {t : Node} :
    read src = .ok t ↔ ∃ d, Datum.Derives src d ∧ Describes none d t := by
  unfold read
  constructor
  · intro h
    split at h
    · cases h
    · rename_i d hread
      exact ⟨d, Datum.derives_of_read hread, ofDatum_ok_iff.mp h⟩
  · rintro ⟨d, derived, describes⟩
    rw [Datum.read_of_derives derived]
    exact ofDatum_ok_iff.mpr describes

end Reader

end Tree

end TreeWat
