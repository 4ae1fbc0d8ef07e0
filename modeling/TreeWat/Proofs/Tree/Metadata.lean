import TreeWat.Proofs.Datum.Metadata
import TreeWat.Proofs.Tree.Literals
set_option autoImplicit false

/-!
# Trees: where metadata puts a node

A node that a list describes stands where its list starts, unless an entry of the metadata says
a line.  Then the last such entry counts, together with the last entry that says a column, and
without one the column is zero.  `Puts` says this of the entries in the order of the text, in
which nothing is merged yet.

Main statement: `metadata_merged`.
-/

namespace TreeWat.Tree

open Bytes (IsInteger)
open Datum (Gathered ListedAt Merged Within lastValue? noteEntries)

/-! ## The datum of a node -/

/-- The node `n` of a tree is described by the datum `m` in the datum that describes the tree:
the root by the whole, and a child of a node by the item at its place. -/
inductive Beside (m : Datum) (n : Node) : Datum → Node → Prop where
  | root : Beside m n m n
  | item {loc keys values head items t d c} (paired : (d, c) ∈ items.zip t.children)
      (below : Beside m n d c) : Beside m n (.list loc keys values (head :: items)) t

theorem DescribesAll.of_mem_zip {parent : Kind} {ds : List Datum} {ns : List Node} {d : Datum}
    {n : Node} (describes : DescribesAll parent ds ns) (paired : (d, n) ∈ ds.zip ns) :
    Describes (some parent) d n := by
  induction ds generalizing ns with
  | nil => cases paired
  | cons d' ds ih =>
    cases describes with
    | cons first others =>
      rcases List.mem_cons.mp paired with same | paired
      · cases same
        exact first
      · exact ih others paired

/-- No child is without an item. -/
theorem DescribesAll.exists_item {parent : Kind} {ds : List Datum} {ns : List Node} {n : Node}
    (describes : DescribesAll parent ds ns) (hn : n ∈ ns) : ∃ d, (d, n) ∈ ds.zip ns := by
  induction ds generalizing ns with
  | nil =>
    cases describes
    cases hn
  | cons d ds ih =>
    cases describes with
    | cons first others =>
      rcases List.mem_cons.mp hn with rfl | hn
      · exact ⟨d, List.mem_cons_self⟩
      · obtain ⟨d', paired⟩ := ih others hn
        exact ⟨d', List.mem_cons_of_mem _ paired⟩

section Beside

variable {d m : Datum} {t n : Node}

/-- What describes a node of a tree does so below its parent. -/
theorem Beside.describes (beside : Beside m n d t) {parent : Option Kind}
    (describes : Describes parent d t) : ∃ parent', Describes parent' m n := by
  induction beside generalizing parent with
  | root => exact ⟨parent, describes⟩
  | item paired _ ih =>
    cases describes with
    | value => cases paired
    | branch _ _ children => exact ih (children.of_mem_zip paired)

theorem Beside.within (beside : Beside m n d t) : Within m d := by
  induction beside with
  | root => exact .self
  | item paired _ ih => exact .item (List.mem_cons_of_mem _ (List.of_mem_zip paired).1) ih

/-- Each node of a tree is described by a datum of its own. -/
theorem exists_beside {parent : Option Kind} (describes : Describes parent d t)
    (hn : n ∈ t.preorder) : ∃ m, Beside m n d t := by
  induction t using Node.induction generalizing parent d with
  | step t ih =>
    rcases Node.mem_preorder.mp hn with rfl | hbelow
    · exact ⟨d, .root⟩
    · obtain ⟨c, hc, hnc⟩ := Node.mem_preorderAll.mp hbelow
      cases describes with
      | symbol | value => cases hc
      | branch _ _ children =>
        obtain ⟨d', paired⟩ := children.exists_item hc
        obtain ⟨m, below⟩ :=
          ih c (Node.mem_descendants_of_child hc) (children.of_mem_zip paired) hnc
        exact ⟨m, .item paired below⟩

end Beside

/-! ## Locations -/

/-- The datum is written as an integer with the value. -/
def Denotes (d : Datum) (v : Int) : Prop :=
  ∃ loc text, d = .atom .integer loc text ∧ IsInteger text v

/-- Where the entries of its metadata put the node of a list that starts at the location. -/
inductive Puts (entries : List (Bytes × Datum)) (start : Location) : Location → Prop where
  | start (noLine : lastValue? (utf8 "line") entries = none) : Puts entries start start
  | line {d l} (lastLine : lastValue? (utf8 "line") entries = some d) (isLine : Denotes d l)
      (noColumn : lastValue? (utf8 "col") entries = none) : Puts entries start ⟨l, 0⟩
  | column {d l d' c} (lastLine : lastValue? (utf8 "line") entries = some d)
      (isLine : Denotes d l) (lastColumn : lastValue? (utf8 "col") entries = some d')
      (isColumn : Denotes d' c) : Puts entries start ⟨l, c⟩

theorem denotes_of_metadataInt {key : Bytes} {d : Datum} {v : Int}
    (hread : metadataInt key d = .ok v) : Denotes d v := by
  unfold metadataInt at hread
  split at hread
  · rename_i loc text
    split at hread
    · rename_i hvalue
      cases hread
      exact ⟨loc, text, rfl, (Bytes.toInt64?_eq_some_iff.mp hvalue).1⟩
    · cases hread
  · cases hread

/-- The location that is read off a list is the one that its entries say. -/
theorem puts_of_location {start place : Location} {keys : List Bytes}
    {values items : List Datum} {es : List Datum.Element}
    (gathered : Gathered start keys values items es)
    (placed : location (.list start keys values items) = .ok place) :
    Puts (noteEntries es) start place := by
  rw [location, gathered.found, gathered.found] at placed
  cases hline : lastValue? (utf8 "line") (noteEntries es) with
  | none =>
    rw [hline] at placed
    cases placed
    exact .start hline
  | some line =>
    rw [hline] at placed
    obtain ⟨l, hl, placed⟩ := bind_ok_iff.mp placed
    cases hcolumn : lastValue? (utf8 "col") (noteEntries es) with
    | none =>
      rw [hcolumn] at placed
      cases placed
      exact .line hline (denotes_of_metadataInt hl) hcolumn
    | some column =>
      rw [hcolumn] at placed
      obtain ⟨c, hc, placed⟩ := bind_ok_iff.mp placed
      cases placed
      exact .column hline (denotes_of_metadataInt hl) hcolumn (denotes_of_metadataInt hc)

/-- A node described by a list stands where the metadata of the list puts it. -/
theorem Describes.puts {parent : Option Kind} {start : Location} {keys : List Bytes}
    {values items : List Datum} {es : List Datum.Element} {n : Node}
    (describes : Describes parent (.list start keys values items) n)
    (gathered : Gathered start keys values items es) : Puts (noteEntries es) start n.loc := by
  cases describes with
  | value _ placed | branch _ placed => exact puts_of_location gathered placed

/-- Metadata is merged, and puts nodes where its last entries say.

A list that was read, at any depth, is written at its location with certain elements, items
mixed with maps of metadata.  Of the entries of all maps, in the order of the text, it stores
each key once, where it came first, and beside it the value of its last entry; this value is
found under the key, and nothing under any other key.  Its items are the other elements.  If the
text is read as a tree, each node is described by a datum that was read, and if this is a list,
it is the last entries that decide where the node stands. -/
theorem metadata_merged {s : Bytes} {d : Datum} (hread : Datum.read s = .ok d) :
    (∀ loc keys values items, Within (.list loc keys values items) d →
      ∃ es, ListedAt s loc es ∧ (∀ es', ListedAt s loc es' → es' = es) ∧
        Gathered loc keys values items es ∧
        ∀ t n, read s = .ok t → Beside (.list loc keys values items) n d t →
          Puts (noteEntries es) loc n.loc) ∧
      ∀ t, read s = .ok t → ∀ n ∈ t.preorder, ∃ m, Within m d ∧ Beside m n d t := by
  have describes : ∀ t, read s = .ok t → Describes none d t := by
    intro t htree
    rw [read, hread] at htree
    exact ofDatum_ok_iff.mp htree
  constructor
  · intro loc keys values items within
    obtain ⟨es, listed, gathered⟩ := Datum.listedAt_of_within hread within
    refine ⟨es, listed, fun es' listed' => listed'.unique listed, gathered, ?_⟩
    intro t n htree beside
    obtain ⟨parent, describesNode⟩ := beside.describes (describes t htree)
    exact describesNode.puts gathered
  · intro t htree n hn
    obtain ⟨m, beside⟩ := exists_beside (describes t htree) hn
    exact ⟨m, beside.within, beside⟩

/-- A block over two lines with three keys in two maps, one of them twice in the first map and
two in both, and between the maps a statement with metadata of its own. -/
def mergedText : Bytes :=
  utf8 "(block ^\x7bline: 1, k: a, line: 2\x7d\n" ++
    utf8 " (break ^\x7bcol: 4\x7d) ^\x7bk: (b), line: 20, col: +5,\x7d)"

/-- The values of the first map are gone, and the places of its keys are not. -/
def mergedList : Datum :=
  .list ⟨1, 1⟩ [utf8 "line", utf8 "k", utf8 "col"]
    [.atom .integer ⟨2, 36⟩ (utf8 "20"),
      .list ⟨2, 25⟩ [] [] [.atom .symbol ⟨2, 26⟩ (utf8 "b")],
      .atom .integer ⟨2, 45⟩ (utf8 "+5")]
    [.atom .symbol ⟨1, 2⟩ (utf8 "block"),
      .list ⟨2, 2⟩ [utf8 "col"] [.atom .integer ⟨2, 16⟩ (utf8 "4")]
        [.atom .symbol ⟨2, 3⟩ (utf8 "break")]]

/-- The statement says no line and stays where it is written. -/
def mergedTree : Node :=
  .branch .block ⟨20, 5⟩ [.branch .break ⟨2, 2⟩ []]

theorem mergedText_read : Datum.read mergedText = .ok mergedList := by
  -- The bytes are spelled out, so that each step finds the next one without decoding the text.
  have hbytes : mergedText =
      [40, 98, 108, 111, 99, 107, 32, 94, 123, 108, 105, 110, 101, 58, 32, 49, 44, 32] ++
      ([107, 58, 32, 97, 44, 32, 108, 105, 110, 101, 58, 32, 50, 125, 10] ++
      ([32, 40, 98, 114, 101, 97, 107, 32, 94, 123, 99, 111, 108, 58, 32, 52, 125, 41, 32] ++
      ([94, 123, 107, 58, 32, 40, 98, 41, 44, 32, 108, 105, 110, 101, 58, 32] ++
      ([50, 48, 44, 32, 99, 111, 108, 58, 32, 43, 53, 44, 125, 41])))) := by decide
  rw [hbytes]
  refine (Datum.read_of_reads (.list rfl (.item rfl ?_ ?_ (.symbol rfl rfl rfl)
    (.note rfl (.cons rfl rfl rfl (.integer rfl rfl) rfl (.cons rfl rfl rfl (.symbol rfl rfl rfl)
      rfl (.last rfl rfl rfl (.integer rfl rfl) rfl)))
    (.item rfl ?_ ?_ (.list rfl (.item rfl ?_ ?_ (.symbol rfl rfl rfl)
      (.note rfl (.last rfl rfl rfl (.integer rfl rfl) rfl) (.nil rfl))))
    (.note rfl (.cons rfl rfl rfl (.list rfl (.item rfl ?_ ?_ (.symbol rfl rfl rfl) (.nil rfl)))
      rfl (.cons rfl rfl rfl (.integer rfl rfl) rfl (.cons rfl rfl rfl (.integer rfl rfl) rfl
        (.nil rfl))))
    (.nil rfl)))))) ?_).trans ?_
  any_goals decide
  rfl

theorem mergedText_tree : read mergedText = .ok mergedTree := by
  rw [read, mergedText_read]
  rfl

/-- The block stands where the second map puts it. -/
theorem mergedText_placed :
    Datum.read mergedText = .ok mergedList ∧ read mergedText = .ok mergedTree ∧
      ∃ es, ListedAt mergedText ⟨1, 1⟩ es ∧ Puts (noteEntries es) ⟨1, 1⟩ ⟨20, 5⟩ ∧
        ∃ values, Merged (noteEntries es) [utf8 "line", utf8 "k", utf8 "col"] values := by
  obtain ⟨es, listed, -, gathered, puts⟩ := (metadata_merged mergedText_read).1 _ _ _ _ .self
  exact ⟨mergedText_read, mergedText_tree, es, listed,
    puts mergedTree mergedTree mergedText_tree .root, _, gathered.merged⟩

end TreeWat.Tree
