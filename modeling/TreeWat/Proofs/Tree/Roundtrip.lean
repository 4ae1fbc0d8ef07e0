import TreeWat.Proofs.Datum.Printing
import TreeWat.Proofs.Tree
import TreeWat.Tree.Printer
import TreeWat.Tree.Reader
set_option autoImplicit false

/-!
# Trees: reading what was printed

The printer writes a tree directly, without a datum in between.  Its text is that of the
datum `Node.datum`, so what holds of printed data holds of printed trees: reading the text
of a well-formed tree gives the tree back, except for its locations, which are those of the
text, and its notes, which are not printed.  Every tree that was read is well formed.
-/

namespace TreeWat

/-! ## Names of kinds -/

theorem Kind.mem_all (kind : Kind) : kind ∈ Kind.all := by
  cases kind with
  | binary op => cases op <;> decide
  | unary op => cases op <;> decide
  | _ => decide

/-- A kind is found by its name: no two kinds share one. -/
theorem Kind.ofText?_text (kind : Kind) : Kind.ofText? kind.text = some kind := by
  have hall : ∀ k ∈ Kind.all, Kind.ofText? k.text = some k := by decide +kernel
  exact hall kind kind.mem_all

/-- The name of a kind is spelled as a symbol. -/
theorem Kind.isSymbolText_text (kind : Kind) : Datum.isSymbolText kind.text = true := by
  have hall : ∀ k ∈ Kind.all, Datum.isSymbolText k.text = true := by decide +kernel
  exact hall kind kind.mem_all

theorem Kind.hasAttr_iff {kind : Kind} :
    kind.hasAttr = true ↔ kind = .num ∨ kind = .id ∨ kind = .string := by
  cases kind <;> simp [Kind.hasAttr]

namespace Node

/-! ## Well-formed trees -/

/-- The tree, below a node of kind `parent`, has text on its names and literals alone, has
nothing below these, and has numbers in the range that is admitted there. -/
inductive WellFormed : Option Kind → Node → Prop where
  | number {parent attr loc note} (spelled : Datum.isIntegerText attr = true)
      (fits : Tree.checkLiteral attr parent = .ok ()) :
      WellFormed parent ⟨.num, attr, loc, note, []⟩
  | text {parent kind attr loc note} (isText : kind = .id ∨ kind = .string) :
      WellFormed parent ⟨kind, attr, loc, note, []⟩
  | branch {parent kind loc note children} (plain : kind.hasAttr = false)
      (below : ∀ c ∈ children, WellFormed (some kind) c) :
      WellFormed parent ⟨kind, [], loc, note, children⟩

mutual

/-- `WellFormed`, as a computation. -/
def isWellFormed (parent : Option Kind) (n : Node) : Bool :=
  match n with
  | ⟨kind, attr, _, _, children⟩ =>
    if kind = .num then
      Datum.isIntegerText attr && (Tree.checkLiteral attr parent).isOk && children.isEmpty
    else if kind.hasAttr then children.isEmpty
    else attr.isEmpty && allWellFormed kind children

/-- `WellFormed` of all trees below a node of kind `parent`. -/
def allWellFormed (parent : Kind) : List Node → Bool
  | [] => true
  | n :: rest => isWellFormed (some parent) n && allWellFormed parent rest

end

theorem allWellFormed_iff {parent : Kind} {ns : List Node} :
    allWellFormed parent ns = true ↔ ∀ n ∈ ns, isWellFormed (some parent) n = true := by
  induction ns with
  | nil => simp [allWellFormed]
  | cons n rest ih => simp [allWellFormed, ih]

theorem isWellFormed_iff {parent : Option Kind} {n : Node} :
    isWellFormed parent n = true ↔ n.WellFormed parent := by
  induction n using Node.induction generalizing parent with
  | step n ih =>
    rcases n with ⟨kind, attr, loc, note, children⟩
    rw [isWellFormed]
    by_cases isNum : kind = .num
    · subst isNum
      have admitted : (Tree.checkLiteral attr parent).isOk = true ↔
          Tree.checkLiteral attr parent = .ok () := by
        cases Tree.checkLiteral attr parent <;> simp [Except.isOk, Except.toBool]
      simp only [if_true, Bool.and_eq_true, List.isEmpty_iff, admitted]
      constructor
      · rintro ⟨⟨spelled, fits⟩, rfl⟩
        exact .number spelled fits
      · intro h
        cases h with
        | number spelled fits => exact ⟨⟨spelled, fits⟩, rfl⟩
        | text isText => simp at isText
        | branch plain => cases plain
    · rw [if_neg isNum]
      by_cases hattr : kind.hasAttr = true
      · have isText : kind = .id ∨ kind = .string := (Kind.hasAttr_iff.mp hattr).resolve_left isNum
        rw [if_pos hattr, List.isEmpty_iff]
        constructor
        · rintro rfl
          exact .text isText
        · intro h
          cases h with
          | number => contradiction
          | text => rfl
          | branch plain => rw [plain] at hattr; cases hattr
      · rw [if_neg hattr, Bool.and_eq_true, List.isEmpty_iff, allWellFormed_iff]
        constructor
        · rintro ⟨rfl, below⟩
          exact .branch (by simpa using hattr) fun c hc =>
            (ih c (mem_descendants_of_child hc)).mp (below c hc)
        · intro h
          cases h with
          | number => contradiction
          | text isText => exact absurd (Kind.hasAttr_iff.mpr (.inr isText)) hattr
          | branch plain below =>
            exact ⟨rfl, fun c hc => (ih c (mem_descendants_of_child hc)).mpr (below c hc)⟩

instance (parent : Option Kind) : DecidablePred (WellFormed parent) :=
  fun _ => decidable_of_iff _ isWellFormed_iff

mutual

/-- The tree without its locations, and without its notes if so asked. -/
def without (notes : Bool) (n : Node) : Node :=
  match n with
  | ⟨kind, attr, _, note, children⟩ =>
    ⟨kind, attr, .nowhere, if notes then none else note, withoutAll notes children⟩

/-- Trees without their locations, and without their notes if so asked. -/
def withoutAll (notes : Bool) : List Node → List Node
  | [] => []
  | n :: rest => without notes n :: withoutAll notes rest

end

/-- The tree without its locations. -/
def unplaced (n : Node) : Node :=
  n.without false

/-- The tree without its locations and notes. -/
def bare (n : Node) : Node :=
  n.without true

mutual

/-- The datum that a tree is written as. -/
def datum (n : Node) : Datum :=
  match n with
  | ⟨kind, attr, _, _, children⟩ =>
    let head : Datum := .atom .symbol .nowhere kind.text
    if kind = .num then .list .nowhere [] [] [head, .atom .integer .nowhere attr]
    else if kind.hasAttr then .list .nowhere [] [] [head, .atom .string .nowhere attr]
    else if children.isEmpty && kind.isBare then head
    else .list .nowhere [] [] (head :: data children)

/-- The data that trees are written as. -/
def data : List Node → List Datum
  | [] => []
  | n :: rest => datum n :: data rest

end

/-! ## The text of a tree -/

section Text

variable {kind : Kind} {attr : Bytes} {loc : Location} {note : Option Annotation}
  {children : List Node}

theorem ne_num_of_plain (plain : kind.hasAttr = false) : kind ≠ .num := by
  rintro rfl
  cases plain

theorem format_plain (plain : kind.hasAttr = false) :
    format ⟨kind, attr, loc, note, children⟩ =
      if children.isEmpty && kind.isBare then kind.text
      else utf8 "(" ++ kind.text ++ formatAll children ++ utf8 ")" := by
  rw [format]
  all_goals
    rintro rfl
    cases plain

theorem datum_number : datum ⟨.num, attr, loc, note, children⟩ =
    .list .nowhere [] [] [.atom .symbol .nowhere Kind.num.text, .atom .integer .nowhere attr] := by
  simp [datum]

theorem datum_text (isText : kind = .id ∨ kind = .string) :
    datum ⟨kind, attr, loc, note, children⟩ =
      .list .nowhere [] [] [.atom .symbol .nowhere kind.text, .atom .string .nowhere attr] := by
  rcases isText with rfl | rfl <;> simp [datum, Kind.hasAttr]

theorem datum_plain (plain : kind.hasAttr = false) :
    datum ⟨kind, attr, loc, note, children⟩ =
      if children.isEmpty && kind.isBare then .atom .symbol .nowhere kind.text
      else .list .nowhere [] [] (.atom .symbol .nowhere kind.text :: data children) := by
  simp only [datum, ne_num_of_plain plain, plain, if_false, Bool.false_eq_true]

mutual

/-- The text of a tree is that of its datum. -/
theorem format_eq_print : ∀ n : Node, n.format = n.datum.print
  | ⟨kind, attr, loc, note, children⟩ => by
    have hchildren := formatAll_eq_printItems children
    cases hkind : kind.hasAttr with
    | true =>
      rcases Kind.hasAttr_iff.mp hkind with rfl | rfl | rfl
      · simp [format, datum_number, Datum.print, Datum.printItems]
        rfl
      · simp [format, datum_text, Datum.print, Datum.printItems]
        rfl
      · simp [format, datum_text, Datum.print, Datum.printItems]
        rfl
    | false =>
      rw [format_plain hkind, datum_plain hkind, hchildren]
      split
      · simp [Datum.print]
      · simp [Datum.print, Datum.printItems]
        rfl

theorem formatAll_eq_printItems : ∀ ns : List Node,
    formatAll ns = Datum.printItems true (data ns)
  | [] => by simp [formatAll, data, Datum.printItems]
  | n :: rest => by
    simp [formatAll, data, Datum.printItems, format_eq_print n, formatAll_eq_printItems rest]

end

theorem mem_data {d : Datum} {ns : List Node} : d ∈ data ns ↔ ∃ n ∈ ns, d = n.datum := by
  induction ns with
  | nil => simp [data]
  | cons n rest ih => simp [data, ih]

theorem wellFormed_list {items : List Datum} (formed : ∀ d ∈ items, d.WellFormed) :
    (Datum.list .nowhere [] [] items).WellFormed :=
  .list (by simp) List.nodup_nil rfl (by simp) formed

/-- The datum of a well-formed tree is well formed. -/
theorem WellFormed.datum {parent : Option Kind} {n : Node} (h : n.WellFormed parent) :
    n.datum.WellFormed := by
  induction h with
  | number spelled fits =>
    rw [datum_number]
    apply wellFormed_list
    intro d hd
    simp only [List.mem_cons, List.not_mem_nil, or_false] at hd
    rcases hd with rfl | rfl
    · exact .symbol (Kind.isSymbolText_text _)
    · exact .integer spelled
  | text isText =>
    rw [datum_text isText]
    apply wellFormed_list
    intro d hd
    simp only [List.mem_cons, List.not_mem_nil, or_false] at hd
    rcases hd with rfl | rfl
    · exact .symbol (Kind.isSymbolText_text _)
    · exact .string
  | branch plain below ih =>
    rw [datum_plain plain]
    split
    · exact .symbol (Kind.isSymbolText_text _)
    · apply wellFormed_list
      intro d hd
      rcases List.mem_cons.mp hd with rfl | hd
      · exact .symbol (Kind.isSymbolText_text _)
      · obtain ⟨c, hc, rfl⟩ := mem_data.mp hd
        exact ih c hc

end Text

/-! ## Trees from data -/

section Reading

open TreeWat.Tree (ofDatum ofData)

variable {parent : Option Kind} {kind : Kind} {loc headLoc : Location}

theorem ofDatum_symbol (plain : kind.hasAttr = false) :
    ofDatum parent (.atom .symbol loc kind.text) = .ok (.leaf kind [] loc) := by
  simp [ofDatum, Kind.ofText?_text, plain]

theorem ofDatum_number {text : Bytes} {sort : AtomSort} {textLoc : Location}
    (fits : Tree.checkLiteral text parent = .ok ()) :
    ofDatum parent (.list loc [] []
        [.atom .symbol headLoc Kind.num.text, .atom sort textLoc text]) =
      .ok (.leaf .num text loc) := by
  simp [ofDatum, Kind.ofText?_text, Tree.location, Datum.metadata?, Datum.entry?, Datum.loc,
    Kind.hasAttr, fits]

theorem ofDatum_text {text : Bytes} {sort : AtomSort} {textLoc : Location}
    (isText : kind = .id ∨ kind = .string) :
    ofDatum parent (.list loc [] []
        [.atom .symbol headLoc kind.text, .atom sort textLoc text]) = .ok (.leaf kind text loc) := by
  rcases isText with rfl | rfl <;>
    simp [ofDatum, Kind.ofText?_text, Tree.location, Datum.metadata?, Datum.entry?, Datum.loc,
      Kind.hasAttr]

theorem ofDatum_plain {rest : List Datum} {ns : List Node} (plain : kind.hasAttr = false)
    (below : ofData kind rest = .ok ns) :
    ofDatum parent (.list loc [] [] (.atom .symbol headLoc kind.text :: rest)) =
      .ok (.branch kind loc ns) := by
  simp [ofDatum, Kind.ofText?_text, Tree.location, Datum.metadata?, Datum.entry?, Datum.loc, plain,
    below]

/-- What reads as the datum of a list of trees, locations apart, gives these trees. -/
theorem ofData_of_bare {children : List Node}
    (each : ∀ c ∈ children, ∀ {d : Datum}, d.bare = c.datum.bare →
      ∃ n, ofDatum (some kind) d = .ok n ∧ n.bare = c.bare) {ds : List Datum}
    (same : Datum.bareAll ds = Datum.bareAll (data children)) :
    ∃ ns, ofData kind ds = .ok ns ∧ withoutAll true ns = withoutAll true children := by
  induction children generalizing ds with
  | nil =>
    obtain rfl : ds = [] := Datum.bareAll_eq_nil same
    exact ⟨[], by rw [ofData], rfl⟩
  | cons c children ih =>
    rw [data, Datum.bareAll] at same
    obtain ⟨d, rest, rfl, hd, hrest⟩ := Datum.bareAll_eq_cons same
    obtain ⟨n, hn, hbare⟩ := each c List.mem_cons_self hd
    obtain ⟨ns, hns, hbares⟩ := ih (fun c hc => each c (List.mem_cons_of_mem _ hc)) hrest
    refine ⟨n :: ns, by rw [ofData, hn, hns], ?_⟩
    rw [withoutAll, withoutAll, hbares]
    exact congrArg (· :: _) hbare

theorem bare_eq_node {d : Datum} {name : Bytes} {items : List Datum}
    (same : d.bare = (Datum.list .nowhere [] [] (.atom .symbol .nowhere name :: items)).bare) :
    ∃ loc headLoc items', d = .list loc [] [] (.atom .symbol headLoc name :: items') ∧
      Datum.bareAll items' = Datum.bareAll items := by
  rw [Datum.bare, Datum.bareAll, Datum.bareAll] at same
  obtain ⟨loc, values, items', rfl, hvalues, hitems⟩ := Datum.bare_eq_list same
  obtain rfl : values = [] := Datum.bareAll_eq_nil hvalues
  obtain ⟨head, rest, rfl, hhead, hrest⟩ := Datum.bareAll_eq_cons hitems
  obtain ⟨headLoc, rfl⟩ := Datum.bare_eq_atom hhead
  exact ⟨loc, headLoc, rest, rfl, hrest⟩

theorem bareAll_eq_atom {ds : List Datum} {sort : AtomSort} {text : Bytes}
    (same : Datum.bareAll ds = Datum.bareAll [.atom sort .nowhere text]) :
    ∃ loc, ds = [.atom sort loc text] := by
  rw [Datum.bareAll, Datum.bareAll] at same
  obtain ⟨d, rest, rfl, hd, hrest⟩ := Datum.bareAll_eq_cons same
  obtain ⟨loc, rfl⟩ := Datum.bare_eq_atom hd
  obtain rfl : rest = [] := Datum.bareAll_eq_nil hrest
  exact ⟨loc, rfl⟩

/-- What reads as the datum of a well-formed tree, locations apart, gives the tree. -/
theorem WellFormed.ofDatum_of_bare {n : Node} (h : n.WellFormed parent) :
    ∀ {d : Datum}, d.bare = n.datum.bare → ∃ n', ofDatum parent d = .ok n' ∧ n'.bare = n.bare := by
  induction h with
  | number spelled fits =>
    intro d same
    rw [datum_number] at same
    obtain ⟨loc, headLoc, items, rfl, hitems⟩ := bare_eq_node same
    obtain ⟨textLoc, rfl⟩ := bareAll_eq_atom hitems
    exact ⟨_, ofDatum_number fits, rfl⟩
  | text isText =>
    intro d same
    rw [datum_text isText] at same
    obtain ⟨loc, headLoc, items, rfl, hitems⟩ := bare_eq_node same
    obtain ⟨textLoc, rfl⟩ := bareAll_eq_atom hitems
    exact ⟨_, ofDatum_text isText, rfl⟩
  | @branch _ kind _ _ children plain below ih =>
    intro d same
    rw [datum_plain plain] at same
    split at same
    · rename_i isBare
      simp only [Bool.and_eq_true, List.isEmpty_iff] at isBare
      obtain ⟨loc, rfl⟩ := Datum.bare_eq_atom (by rw [same, Datum.bare])
      refine ⟨_, ofDatum_symbol plain, ?_⟩
      rw [isBare.1]
      rfl
    · obtain ⟨loc, headLoc, items, rfl, hitems⟩ := bare_eq_node same
      obtain ⟨ns, hns, hbares⟩ := ofData_of_bare (fun c hc => ih c hc) hitems
      refine ⟨_, ofDatum_plain plain hns, ?_⟩
      simp [bare, Node.branch, without, hbares]

/-! ## Trees that were read -/

theorem unannotated_leaf (kind : Kind) (attr : Bytes) (loc : Location) :
    (leaf kind attr loc).Unannotated := by
  intro m hm
  rcases mem_preorder.mp hm with rfl | hm
  · rfl
  · cases hm

theorem unannotated_branch {children : List Node} (below : ∀ c ∈ children, c.Unannotated) :
    (branch kind loc children).Unannotated := by
  intro m hm
  rcases mem_preorder.mp hm with rfl | hm
  · rfl
  · obtain ⟨c, hc, hm⟩ := mem_preorderAll.mp hm
    exact below c hc m hm

theorem digits_of_toNat? {s : Bytes} (isNumber : Bytes.toNat? s ≠ none) :
    ∃ d r, s = d :: r ∧ Bytes.isDigit d = true ∧ r.all Bytes.isDigit = true := by
  unfold Bytes.toNat? at isNumber
  split at isNumber
  · rename_i hall
    cases s with
    | nil => cases hall
    | cons d r =>
      simp only [List.isEmpty_cons, Bool.not_false, Bool.true_and, List.all_cons,
        Bool.and_eq_true] at hall
      exact ⟨d, r, rfl, hall.1, hall.2⟩
  · exact absurd rfl isNumber

/-- A text that stands for an integer is spelled as one. -/
theorem isIntegerText_of_toInt? {text : Bytes} (isNumber : Bytes.toInt? text ≠ none) :
    Datum.isIntegerText text = true := by
  cases text with
  | nil => exact absurd rfl isNumber
  | cons b s =>
    rw [Bytes.toInt?] at isNumber
    split at isNumber
    · rename_i hminus
      obtain ⟨d, r, rfl, hd, hr⟩ := digits_of_toNat? (s := s) (by rintro hs; simp [hs] at isNumber)
      simp [Datum.isIntegerText, Datum.startsInteger, hminus, hd, hr]
    · split at isNumber
      · rename_i hplus
        obtain ⟨d, r, rfl, hd, hr⟩ := digits_of_toNat? (s := s)
          (by rintro hs; simp [hs] at isNumber)
        simp [Datum.isIntegerText, Datum.startsInteger, hplus, hd, hr]
      · obtain ⟨d, r, hs, hd, hr⟩ := digits_of_toNat? (s := b :: s)
          (by rintro hs; simp [hs] at isNumber)
        cases hs
        simp [Datum.isIntegerText, Datum.startsInteger, hd, hr]

theorem isIntegerText_of_checkLiteral {text : Bytes}
    (fits : Tree.checkLiteral text parent = .ok ()) : Datum.isIntegerText text = true := by
  unfold Tree.checkLiteral Bytes.toInt64? at fits
  cases h : Bytes.toInt? text with
  | none =>
    rw [h] at fits
    cases fits
  | some v => exact isIntegerText_of_toInt? (by simp [h])

/-- What a datum that describes a tree looks like, and the tree. -/
theorem ofDatum_cases {d : Datum} {n : Node} (h : ofDatum parent d = .ok n) :
    (∃ loc name kind, d = .atom .symbol loc name ∧ kind.hasAttr = false ∧
        n = .leaf kind [] loc) ∨
      (∃ kind text place, kind.hasAttr = true ∧
        (kind = .num → Tree.checkLiteral text parent = .ok ()) ∧ n = .leaf kind text place) ∨
      ∃ loc keys values head rest kind place children,
        d = .list loc keys values (head :: rest) ∧ kind.hasAttr = false ∧
          ofData kind rest = .ok children ∧ n = .branch kind place children := by
  unfold ofDatum at h
  split at h
  · split at h
    · cases h
    · split at h
      · cases h
      · rename_i plain
        cases h
        exact .inl ⟨_, _, _, rfl, by simpa using plain, rfl⟩
  · split at h
    · split at h
      · cases h
      · split at h
        · cases h
        · split at h
          · rename_i hasAttr
            split at h
            · split at h
              · split at h
                · cases h
                · rename_i fits
                  cases h
                  exact .inr (.inl ⟨_, _, _, hasAttr, fun _ => fits, rfl⟩)
              · rename_i other
                cases h
                exact .inr (.inl ⟨_, _, _, hasAttr, fun isNum => absurd isNum other, rfl⟩)
            · cases h
          · rename_i plain
            split at h
            · cases h
            · rename_i below
              cases h
              exact .inr (.inr ⟨_, _, _, _, _, _, _, _, rfl, by simpa using plain, below, rfl⟩)
    · cases h
  · cases h

mutual

/-- A tree that a datum describes is well formed and has no notes. -/
theorem wellFormed_of_ofDatum {parent : Option Kind} {d : Datum} {n : Node}
    (h : ofDatum parent d = .ok n) : n.WellFormed parent ∧ n.Unannotated := by
  rcases ofDatum_cases h with ⟨loc, name, kind, -, plain, rfl⟩ |
    ⟨kind, text, place, hasAttr, fits, rfl⟩ |
    ⟨loc, keys, values, head, rest, kind, place, children, hd, plain, below, rfl⟩
  · exact ⟨.branch plain (by simp), unannotated_leaf _ _ _⟩
  · refine ⟨?_, unannotated_leaf _ _ _⟩
    rcases Kind.hasAttr_iff.mp hasAttr with rfl | isText
    · exact .number (isIntegerText_of_checkLiteral (fits rfl)) (fits rfl)
    · exact .text isText
  · have hchildren := wellFormed_of_ofData below
    exact ⟨.branch plain fun c hc => (hchildren c hc).1,
      unannotated_branch fun c hc => (hchildren c hc).2⟩
termination_by sizeOf d
decreasing_by
  rw [hd]
  simp
  omega

theorem wellFormed_of_ofData {kind : Kind} {ds : List Datum} {ns : List Node}
    (h : ofData kind ds = .ok ns) : ∀ n ∈ ns, n.WellFormed (some kind) ∧ n.Unannotated := by
  cases ds with
  | nil =>
    rw [ofData] at h
    cases h
    simp
  | cons d rest =>
    rw [ofData] at h
    cases hd : ofDatum (some kind) d with
    | error e => simp [hd] at h
    | ok n =>
      cases hrest : ofData kind rest with
      | error e => simp [hd, hrest] at h
      | ok ns' =>
        simp only [hd, hrest] at h
        cases h
        intro m hm
        rcases List.mem_cons.mp hm with rfl | hm
        · exact wellFormed_of_ofDatum hd
        · exact wellFormed_of_ofData hrest m hm
termination_by sizeOf ds

end

end Reading

/-! ## Reading back -/

mutual

/-- The text of a tree shows neither locations nor notes. -/
theorem format_without (notes : Bool) : ∀ n : Node, (n.without notes).format = n.format
  | ⟨kind, attr, loc, note, children⟩ => by
    have hempty : (withoutAll notes children).isEmpty = children.isEmpty := by
      cases children <;> simp [withoutAll]
    have hchildren := formatAll_without notes children
    rw [without]
    cases hkind : kind.hasAttr with
    | true =>
      rcases Kind.hasAttr_iff.mp hkind with rfl | rfl | rfl
      · rw [format, format]
      · rw [format, format]
      · rw [format, format]
    | false => rw [format_plain hkind, format_plain hkind, hempty, hchildren]

theorem formatAll_without (notes : Bool) : ∀ ns : List Node,
    formatAll (withoutAll notes ns) = formatAll ns
  | [] => by rw [withoutAll]
  | n :: rest => by
    rw [withoutAll, formatAll, formatAll, format_without notes n, formatAll_without notes rest]

end

mutual

theorem unplaced_of_unannotated : ∀ {n : Node}, n.Unannotated → n.without false = n.without true
  | ⟨kind, attr, loc, note, children⟩, h => by
    obtain rfl : note = none := h.note
    rw [without, without, withoutAll_of_unannotated fun c hc => h.child hc]
    rfl

theorem withoutAll_of_unannotated : ∀ {ns : List Node}, (∀ n ∈ ns, n.Unannotated) →
    withoutAll false ns = withoutAll true ns
  | [], _ => rfl
  | n :: rest, h => by
    rw [withoutAll, withoutAll, unplaced_of_unannotated (h n List.mem_cons_self),
      withoutAll_of_unannotated fun m hm => h m (List.mem_cons_of_mem _ hm)]

end

theorem wellFormed_of_read {src : Bytes} {t : Node} (h : Tree.read src = .ok t) :
    t.WellFormed none ∧ t.Unannotated := by
  unfold Tree.read at h
  split at h
  · cases h
  · exact wellFormed_of_ofDatum h

theorem WellFormed.read_format {t : Node} (h : t.WellFormed none) :
    ∃ t', Tree.read t.format = .ok t' ∧ t'.bare = t.bare := by
  obtain ⟨d, hread, hbare⟩ := Datum.read_print h.datum
  obtain ⟨t', hof, hsame⟩ := h.ofDatum_of_bare hbare
  refine ⟨t', ?_, hsame⟩
  rw [format_eq_print, Tree.read, hread]
  exact hof

/-- Reading undoes printing.  The text of a well-formed tree reads as the tree: the result
has no notes and differs from the tree in locations and notes at most, so in locations
alone if the tree has no notes.  Every tree that was read, whatever the text, is well formed
and has no notes, so printing it, reading the text and printing the result gives the same
text again. -/
theorem read_undoes_format :
    (∀ t : Node, t.WellFormed none → ∃ t', Tree.read t.format = .ok t' ∧ t'.Unannotated ∧
      t'.bare = t.bare ∧ (t.Unannotated → t'.unplaced = t.unplaced)) ∧
    (∀ (src : Bytes) (t : Node), Tree.read src = .ok t → t.WellFormed none ∧ t.Unannotated) ∧
    ∀ (src : Bytes) (t : Node), Tree.read src = .ok t →
      ∃ t', Tree.read t.format = .ok t' ∧ t'.format = t.format := by
  refine ⟨?_, ?_, ?_⟩
  · intro t formed
    obtain ⟨t', hread, hbare⟩ := formed.read_format
    have hnotes : t'.Unannotated := (wellFormed_of_read hread).2
    refine ⟨t', hread, hnotes, hbare, ?_⟩
    intro unannotated
    calc t'.unplaced = t'.bare := unplaced_of_unannotated hnotes
      _ = t.bare := hbare
      _ = t.unplaced := (unplaced_of_unannotated unannotated).symm
  · intro src t hread
    exact wellFormed_of_read hread
  · intro src t hread
    obtain ⟨t', hread', hbare⟩ := (wellFormed_of_read hread).1.read_format
    refine ⟨t', hread', ?_⟩
    calc t'.format = t'.bare.format := (format_without true t').symm
      _ = t.bare.format := by rw [hbare]
      _ = t.format := format_without true t

/-- A tree with the magnitude of the smallest number, a string of awkward bytes, and a name
without any. -/
def awkwardTree : Node :=
  .branch .block .nowhere [
    .branch (.unary .neg) .nowhere [.leaf .num (utf8 "2147483648") .nowhere],
    .leaf .string [byte '"', byte '\\', byte '\n', 0, 255] .nowhere,
    .leaf .id [] .nowhere,
    .leaf .break [] .nowhere]

/-- The awkward tree is read back. -/
theorem awkwardTree_read_back :
    awkwardTree.WellFormed none ∧ ∃ t', Tree.read awkwardTree.format = .ok t' ∧
      t'.unplaced = awkwardTree.unplaced ∧
      ∃ t'', Tree.read t'.format = .ok t'' ∧ t''.format = t'.format := by
  have hformed : awkwardTree.WellFormed none := by
    refine .branch rfl ?_
    intro c hc
    simp only [List.mem_cons, List.not_mem_nil, or_false] at hc
    rcases hc with rfl | rfl | rfl | rfl
    · refine .branch rfl ?_
      intro c hc
      rw [List.mem_singleton.mp hc]
      exact .number (by decide) rfl
    · exact .text (.inr rfl)
    · exact .text (.inl rfl)
    · exact .branch rfl (by simp)
  have hnotes : awkwardTree.Unannotated := by decide
  obtain ⟨hback, -, hagain⟩ := read_undoes_format
  obtain ⟨t', hread, -, -, hplaced⟩ := hback awkwardTree hformed
  exact ⟨hformed, t', hread, hplaced hnotes, hagain _ t' hread⟩

end Node

end TreeWat
