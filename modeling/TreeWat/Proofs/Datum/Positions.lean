import Mathlib.Data.List.Forall2
import TreeWat.Proofs.Datum.Roundtrip
import TreeWat.Proofs.Location
set_option autoImplicit false

/-!
# Data: where they stand in the text

Messages point at places of the input by the locations that the reader leaves on the data.
A location is carried along through white space, comments and strings of several lines, and
it is noted behind the white space in front of a datum, before the datum itself is read.

The grammar has the location of each datum in it, so what it derives is compared with the
text in front (`Spells.faithful`): the data that stand in a piece of the text stand in the
interval of its bytes, one behind the other.  Main statement: every datum that was read, at
any depth, has one place in the text where its own spelling begins, and the location of this
place; items of lists and values of maps stand in the order in which the tree has them
(`read_faithful`).
-/

namespace TreeWat.Datum

/-! ## Data in a datum -/

mutual

/-- The datum and what stands in it as the item of a list or the value of a map, parents
first.  Metadata is left out, since a value there can take the place of an earlier one. -/
def preorder : Datum → List Datum
  | .atom sort loc text => [.atom sort loc text]
  | .list loc keys values items => .list loc keys values items :: preorderAll items
  | .map loc keys values => .map loc keys values :: preorderAll values
  | .foreign loc sort => [.foreign loc sort]

/-- The data of a list of data. -/
def preorderAll : List Datum → List Datum
  | [] => []
  | d :: r => preorder d ++ preorderAll r

end

/-- The first datum is the second or stands in it, metadata included. -/
inductive Within : Datum → Datum → Prop where
  | self {d} : Within d d
  | item {n d loc keys values items} (isItem : d ∈ items) (inside : Within n d) :
      Within n (.list loc keys values items)
  | metadata {n d loc keys values items} (isValue : d ∈ values) (inside : Within n d) :
      Within n (.list loc keys values items)
  | value {n d loc keys values} (isValue : d ∈ values) (inside : Within n d) :
      Within n (.map loc keys values)

/-- What the spelling of a datum begins with: a bracket, a quote, or the whole text of a
number or a symbol. -/
def opening? : Datum → Option Bytes
  | .atom .string _ _ => some [byte '"']
  | .atom _ _ text => some text
  | .list .. => some [byte '(']
  | .map .. => some [byte '\x7b']
  | .foreign .. => none

/-! ## Places -/

/-- The spelling of the datum begins behind the first `o` bytes of the text, and its location
says so. -/
structure StandsAt (s : Bytes) (d : Datum) (o : Nat) : Prop where
  within : o < s.length
  line : d.loc.line = 1 + (s.take o).count (byte '\n')
  column : d.loc.column = 1 + ((s.take o).rtakeWhile (· ≠ byte '\n')).length
  spelling : ∃ opening, d.opening? = some opening ∧ opening <+: s.drop o

/-- The data stand one behind the other, from the place `lo` on and in front of `hi`. -/
def StandIn (s : Bytes) (lo hi : Nat) (ds : List Datum) : Prop :=
  ∃ os, List.Forall₂ (StandsAt s) ds os ∧ os.Pairwise (· < ·) ∧ ∀ o ∈ os, lo ≤ o ∧ o < hi

section Places

variable {s : Bytes} {lo mid hi : Nat}

theorem StandsAt.loc_eq {d : Datum} {o : Nat} (h : StandsAt s d o) :
    d.loc = Location.start.skip (s.take o) := by
  rw [Location.skip_start, ← h.line, ← h.column]

/-- A datum stands at one place only. -/
theorem StandsAt.unique {d : Datum} {o o' : Nat} (h : StandsAt s d o) (h' : StandsAt s d o') :
    o = o' :=
  Location.skip_start_injective h.within.le h'.within.le (h.loc_eq.symm.trans h'.loc_eq)

theorem standsAt_of_split {pre text rest opening : Bytes} {d : Datum}
    (hs : s = pre ++ (text ++ rest)) (hloc : d.loc = Location.start.skip pre)
    (isOpening : d.opening? = some opening) (begins : opening <+: text) (some : opening ≠ []) :
    StandsAt s d pre.length := by
  have htake : s.take pre.length = pre := by rw [hs, List.take_left]
  have hdrop : s.drop pre.length = text ++ rest := by rw [hs, List.drop_left]
  refine ⟨?_, ?_, ?_, opening, isOpening, ?_⟩
  · have hopening := List.length_pos_iff.mpr some
    have htext := begins.length_le
    rw [hs, List.length_append, List.length_append]
    omega
  · rw [hloc, Location.skip_start, htake]
  · rw [hloc, Location.skip_start, htake]
  · rw [hdrop]
    exact begins.trans (List.prefix_append _ _)

namespace StandIn

theorem nil : StandIn s lo hi [] :=
  ⟨[], .nil, .nil, by simp⟩

theorem mono {lo' hi' : Nat} {ds : List Datum} (h : StandIn s lo hi ds) (hlo : lo' ≤ lo)
    (hhi : hi ≤ hi') : StandIn s lo' hi' ds := by
  obtain ⟨os, stand, order, inside⟩ := h
  exact ⟨os, stand, order, fun o ho =>
    ⟨Nat.le_trans hlo (inside o ho).1, Nat.lt_of_lt_of_le (inside o ho).2 hhi⟩⟩

/-- The second data begin where the first end. -/
theorem append {ds es : List Datum} (first : StandIn s lo mid ds) (second : StandIn s mid hi es)
    (hlo : lo ≤ mid) (hhi : mid ≤ hi) : StandIn s lo hi (ds ++ es) := by
  obtain ⟨os, stand, order, inside⟩ := first
  obtain ⟨os', stand', order', inside'⟩ := second
  refine ⟨os ++ os', List.rel_append stand stand', List.pairwise_append.mpr
    ⟨order, order', fun o ho o' ho' => ?_⟩, ?_⟩
  · exact Nat.lt_of_lt_of_le (inside o ho).2 (inside' o' ho').1
  · intro o ho
    rcases List.mem_append.mp ho with ho | ho
    · exact ⟨(inside o ho).1, Nat.lt_of_lt_of_le (inside o ho).2 hhi⟩
    · exact ⟨Nat.le_trans hlo (inside' o ho).1, (inside' o ho).2⟩

theorem single {d : Datum} (stands : StandsAt s d lo) (hhi : lo < hi) : StandIn s lo hi [d] :=
  ⟨[lo], .cons stands .nil, List.pairwise_singleton _ _, by simpa using hhi⟩

/-- A parent stands in front of what stands in it. -/
theorem cons {d : Datum} {ds : List Datum} (stands : StandsAt s d lo)
    (below : StandIn s (lo + 1) hi ds) (hhi : lo < hi) : StandIn s lo hi (d :: ds) :=
  append (single stands (Nat.lt_succ_self lo)) below (Nat.le_succ lo) hhi

/-- Each of the data has a place, and later ones have later places. -/
theorem pairwise {ds : List Datum} (h : StandIn s lo hi ds) :
    ds.Pairwise fun a b => ∀ o o', StandsAt s a o → StandsAt s b o' → o < o' := by
  obtain ⟨os, stand, order, -⟩ := h
  induction stand with
  | nil => exact .nil
  | @cons d o ds os first others ih =>
    obtain ⟨hfirst, hothers⟩ := List.pairwise_cons.mp order
    refine List.pairwise_cons.mpr ⟨fun b hb p p' hp hp' => ?_, ih hothers⟩
    obtain ⟨i, hi, rfl⟩ := List.getElem_of_mem hb
    have hi' : i < os.length := others.length_eq ▸ hi
    have hplace : StandsAt s ds[i] os[i] := others.get hi hi'
    rw [hp.unique first, hp'.unique hplace]
    exact hfirst _ (List.getElem_mem hi')

end StandIn

end Places

/-! ## Derived data -/

/-- The datum stands in an interval of the text, and so does each one in it, with its items
and values in order. -/
structure Faithful (s : Bytes) (lo hi : Nat) (d : Datum) : Prop where
  order : StandIn s lo hi d.preorder
  inside : ∀ n, Within n d → ∃ lo hi, StandIn s lo hi n.preorder

/-- The same for data one behind the other. -/
structure AllFaithful (s : Bytes) (lo hi : Nat) (ds : List Datum) : Prop where
  order : StandIn s lo hi (preorderAll ds)
  inside : ∀ d ∈ ds, ∀ n, Within n d → ∃ lo hi, StandIn s lo hi n.preorder

/-- The data of an element, the values of metadata included. -/
def Element.data : Element → List Datum
  | .item d => [d]
  | .note _ values => values

/-- The same for the contents of a list.  Metadata is placed, but in no order. -/
structure ElementsFaithful (s : Bytes) (lo hi : Nat) (es : List Element) : Prop where
  order : StandIn s lo hi (preorderAll (gatherItems es))
  inside : ∀ e ∈ es, ∀ d ∈ e.data, ∀ n, Within n d → ∃ lo hi, StandIn s lo hi n.preorder

theorem mem_setEntries {keys : List Bytes} {values : List Datum}
    {stored : List Bytes × List Datum} {v : Datum} (hv : v ∈ (setEntries keys values stored).2) :
    v ∈ values ∨ v ∈ stored.2 := by
  fun_induction setEntries keys values stored with
  | case1 k ks w vs stored ih =>
    rcases ih hv with hv | hv
    · exact .inl (List.mem_cons_of_mem _ hv)
    · rcases mem_setEntry hv with rfl | hv
      · exact .inl List.mem_cons_self
      · exact .inr hv
  | case2 => exact .inr hv

/-- A value of the metadata comes from one of the maps. -/
theorem mem_gatherNotes {es : List Element} {v : Datum} (hv : v ∈ (gatherNotes es).2) :
    ∃ e ∈ es, v ∈ e.data := by
  let Placed : List Bytes × List Datum → Prop := fun stored =>
    ∀ w ∈ stored.2, ∃ e ∈ es, w ∈ e.data
  suffices Placed (gatherNotes es) from this v hv
  refine List.foldlRecOn (motive := Placed) es _ (by simp [Placed]) ?_
  intro stored before e he w hw
  cases e with
  | item d => exact before w hw
  | note keys values =>
    rcases mem_setEntries hw with hw | hw
    · exact ⟨_, he, hw⟩
    · exact before w hw

section Derived

variable {s : Bytes}

/-- A datum without parts. -/
theorem faithful_atom {sort : AtomSort} {loc : Location} {pre text rest value opening : Bytes}
    (hs : s = pre ++ (text ++ rest)) (hloc : loc = Location.start.skip pre)
    (isOpening : opening? (.atom sort loc value) = some opening) (begins : opening <+: text)
    (some : opening ≠ []) :
    Faithful s pre.length (pre.length + text.length) (.atom sort loc value) := by
  have stands := standsAt_of_split (d := .atom sort loc value) hs hloc isOpening begins some
  have htext : 0 < text.length :=
    Nat.lt_of_lt_of_le (List.length_pos_iff.mpr some) begins.length_le
  have order : StandIn s pre.length (pre.length + text.length)
      (Datum.atom sort loc value).preorder := .single stands (by omega)
  refine ⟨order, fun n within => ?_⟩
  cases within with
  | self => exact ⟨_, _, order⟩

mutual

/-- A derived datum stands where its spelling does. -/
theorem Spells.faithful {loc : Location} {text rest : Bytes} {d : Datum} :
    Spells loc text rest d → ∀ (pre : Bytes), s = pre ++ (text ++ rest) →
      loc = Location.start.skip pre → Faithful s pre.length (pre.length + text.length) d
  | .integer numeral _, pre, hs, hloc => by
    obtain ⟨sign, digits, rfl, -, hdigits, -⟩ := numeral
    exact faithful_atom hs hloc rfl (List.prefix_refl _) (by simp [hdigits])
  | .symbol name _, pre, hs, hloc => by
    obtain ⟨b, r, rfl, -⟩ := name
    exact faithful_atom hs hloc rfl (List.prefix_refl _) (by simp)
  | .string contents, pre, hs, hloc => faithful_atom hs hloc rfl (by simp) (by simp)
  | @Spells.list _ body _ es contents, pre, hs, hloc => by
    have below := contents.faithful (pre ++ [byte '(']) (by simp [hs]) (by simp [hloc])
    have stands : StandsAt s (ofElements loc es) pre.length :=
      standsAt_of_split hs hloc rfl (by simp) (by simp)
    have order : StandIn s pre.length (pre.length + (byte '(' :: body).length)
        (ofElements loc es).preorder :=
      .cons stands (below.order.mono (by simp) (by simp; omega)) (by simp)
    refine ⟨order, fun n within => ?_⟩
    cases within with
    | self => exact ⟨_, _, order⟩
    | item isItem inside =>
      exact below.inside _ (mem_gatherItems isItem) _ (List.mem_singleton_self _) n inside
    | metadata isValue inside =>
      obtain ⟨e, he, hv⟩ := mem_gatherNotes isValue
      exact below.inside e he _ hv n inside
  | @Spells.map _ body _ keys values entries, pre, hs, hloc => by
    have below := entries.faithful (pre ++ [byte '\x7b']) (by simp [hs]) (by simp [hloc])
    have stands : StandsAt s (.map loc keys values) pre.length :=
      standsAt_of_split hs hloc rfl (by simp) (by simp)
    have order : StandIn s pre.length (pre.length + (byte '\x7b' :: body).length)
        (Datum.map loc keys values).preorder :=
      .cons stands (below.order.mono (by simp) (by simp; omega)) (by simp)
    refine ⟨order, fun n within => ?_⟩
    cases within with
    | self => exact ⟨_, _, order⟩
    | value isValue inside => exact below.inside _ isValue n inside

/-- Derived contents of a list stand one behind the other. -/
theorem SpellsElements.faithful {loc : Location} {text rest : Bytes} {es : List Element} :
    SpellsElements loc text rest es → ∀ (pre : Bytes), s = pre ++ (text ++ rest) →
      loc = Location.start.skip pre →
      ElementsFaithful s pre.length (pre.length + text.length) es
  | .close _, pre, hs, hloc => ⟨.nil, by simp⟩
  | @SpellsElements.item _ ws text _ _ _ _ _ first others, pre, hs, hloc => by
    have hfirst := first.faithful (pre ++ ws) (by simp [hs]) (by simp [hloc])
    have hothers := others.faithful (pre ++ ws ++ text) (by simp [hs]) (by simp [hloc])
    refine ⟨.append (hfirst.order.mono (by simp) le_rfl)
      (hothers.order.mono (by simp [Nat.add_assoc]) (by simp [Nat.add_assoc])) (by simp; omega)
      (by simp; omega),
      List.forall_mem_cons.mpr ⟨?_, hothers.inside⟩⟩
    intro d' hd' n inside
    obtain rfl := List.mem_singleton.mp hd'
    exact hfirst.inside n inside
  | @SpellsElements.note _ ws text _ _ _ _ _ _ entries others, pre, hs, hloc => by
    have hentries := entries.faithful (pre ++ ws ++ [byte '^', byte '\x7b'])
      (by simp [hs]) (by simp [hloc])
    have hothers := others.faithful (pre ++ ws ++ [byte '^', byte '\x7b'] ++ text)
      (by simp [hs]) (by simp [hloc])
    exact ⟨hothers.order.mono (by simp [Nat.add_assoc]) (by simp; omega),
      List.forall_mem_cons.mpr ⟨hentries.inside, hothers.inside⟩⟩

/-- The values of derived entries stand one behind the other. -/
theorem SpellsEntries.faithful {loc : Location} {text rest : Bytes} {keys : List Bytes}
    {values : List Datum} :
    SpellsEntries loc text rest keys values → ∀ (pre : Bytes), s = pre ++ (text ++ rest) →
      loc = Location.start.skip pre →
      AllFaithful s pre.length (pre.length + text.length) values
  | .close _, pre, hs, hloc => ⟨.nil, by simp⟩
  | .last first _, pre, hs, hloc => by
    have hfirst := first.faithful pre (by simp [hs]) hloc
    refine ⟨?_, by simpa using hfirst.inside⟩
    simpa [preorderAll] using hfirst.order.mono le_rfl (by simp)
  | @SpellsEntries.cons _ text ws _ _ _ _ _ _ first _ others, pre, hs, hloc => by
    have hfirst := first.faithful pre (by simp [hs]) hloc
    have hothers := others.faithful (pre ++ text ++ ws ++ [byte ',']) (by simp [hs])
      (by simp [hloc])
    exact ⟨.append hfirst.order (hothers.order.mono (by simp) (by simp; omega)) (by simp)
      (by simp), List.forall_mem_cons.mpr ⟨hfirst.inside, hothers.inside⟩⟩

/-- The value of a derived entry stands behind its key. -/
theorem SpellsEntry.faithful {loc : Location} {text rest key : Bytes} {value : Datum} :
    SpellsEntry loc text rest key value → ∀ (pre : Bytes), s = pre ++ (text ++ rest) →
      loc = Location.start.skip pre → Faithful s pre.length (pre.length + text.length) value
  | @SpellsEntry.intro _ ws₁ _ ws₂ ws₃ _ _ _ _ _ _ _ spelled, pre, hs, hloc => by
    have hvalue := spelled.faithful (pre ++ ws₁ ++ key ++ ws₂ ++ [byte ':'] ++ ws₃)
      (by simp [hs]) (by simp [hloc])
    exact ⟨hvalue.order.mono (by simp) (by simp; omega), hvalue.inside⟩

end

end Derived

/-- Where the data of a text stand.

Each datum that was read, at any depth and metadata included, stands at one place: its
spelling begins there, its line is counted by the line breaks in front, and its column by the
bytes behind the last of them.  A list or a map stands in front of the items and values in it,
and of these the later stand at later places. -/
theorem read_faithful {s : Bytes} {d : Datum} (hread : read s = .ok d) :
    (∀ n, Within n d → ∃ o, StandsAt s n o ∧ ∀ o', StandsAt s n o' → o' = o) ∧
      ∀ n, Within n d →
        n.preorder.Pairwise fun a b => ∀ o o', StandsAt s a o → StandsAt s b o' → o < o' := by
  obtain ⟨ws, text, end_, hs, -, -, spelled⟩ := derives_of_read hread
  have faithful := spelled.faithful ws (hs.trans (List.append_assoc _ _ _)) rfl
  refine ⟨fun n within => ?_, fun n within => ?_⟩
  · obtain ⟨lo, hi, os, stand, -, -⟩ := faithful.inside n within
    obtain ⟨rest, hfirst⟩ : ∃ rest, n.preorder = n :: rest := by
      cases n <;> exact ⟨_, rfl⟩
    rw [hfirst] at stand
    cases stand with
    | @cons _ o _ _ first _ => exact ⟨o, first, fun o' h' => h'.unique first⟩
  · obtain ⟨lo, hi, stand⟩ := faithful.inside n within
    exact stand.pairwise

/-- A list over four lines, with a comment in front, a line break in its string and a list in
its metadata. -/
def scatteredList : Bytes :=
  utf8 "; a list\n (a \"b\nc\" ; d\n  ^\x7bk: ( e )\x7d\n\x7bm: -7,\x7d)"

theorem scatteredList_read :
    read scatteredList = .ok (.list ⟨2, 2⟩ [utf8 "k"] [.list ⟨4, 8⟩ [] [] [.atom .symbol ⟨4, 10⟩
      (utf8 "e")]] [.atom .symbol ⟨2, 3⟩ (utf8 "a"), .atom .string ⟨2, 5⟩ (utf8 "b\nc"),
      .map ⟨5, 1⟩ [utf8 "m"] [.atom .integer ⟨5, 5⟩ (utf8 "-7")]]) := by
  -- The bytes are spelled out, so that each step finds the next one without decoding the text.
  have hbytes : scatteredList = [59, 32, 97, 32, 108, 105, 115, 116, 10] ++
      ([32, 40, 97, 32, 34, 98, 10] ++ ([99, 34, 32, 59, 32, 100, 10] ++
      ([32, 32, 94, 123, 107, 58, 32, 40, 32, 101, 32, 41, 125, 10] ++
      [123, 109, 58, 32, 45, 55, 44, 125, 41]))) := by decide
  rw [hbytes]
  refine (read_of_reads (.list rfl (.item rfl ?_ ?_ (.symbol rfl rfl rfl) (.item rfl ?_ ?_
    (.string rfl (.plain ?_ ?_ (.plain ?_ ?_ (.plain ?_ ?_ (.close _ _)))))
    (.note rfl (.last rfl rfl rfl (.list rfl (.item rfl ?_ ?_ (.symbol rfl rfl rfl) (.nil rfl)))
      rfl)
      (.item rfl ?_ ?_ (.map rfl (.cons rfl rfl rfl (.integer rfl rfl) rfl (.nil rfl)))
        (.nil rfl)))))) ?_).trans ?_
  any_goals decide
  rfl

/-- The outer list with all its items, and the list in its metadata behind thirty bytes of
the text. -/
theorem scatteredList_faithful :
    ∃ d, read scatteredList = .ok d ∧
      (∃ n, Within n d ∧ n.loc = ⟨4, 8⟩ ∧ StandsAt scatteredList n 30) ∧
      d.preorder.Pairwise fun a b =>
        ∀ o o', StandsAt scatteredList a o → StandsAt scatteredList b o' → o < o' := by
  obtain ⟨stands, order⟩ := read_faithful scatteredList_read
  obtain ⟨o, hplace, -⟩ := stands _ (.metadata (List.mem_singleton_self _) .self)
  have hthere : Location.start.skip (scatteredList.take o) = ⟨4, 8⟩ := hplace.loc_eq.symm
  obtain rfl : o = 30 := Location.skip_start_injective hplace.within.le (by decide)
    (hthere.trans (by decide))
  exact ⟨_, scatteredList_read, ⟨_, .metadata (List.mem_singleton_self _) .self, rfl, hplace⟩,
    order _ .self⟩

end TreeWat.Datum
