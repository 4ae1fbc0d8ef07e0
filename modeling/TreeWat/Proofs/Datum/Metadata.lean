import Mathlib.Logic.Function.Basic
import TreeWat.Proofs.Datum.Positions
set_option autoImplicit false

/-!
# Data: the metadata of a list

Maps of metadata may stand anywhere among the items of a list, and a key may come back, in the
same map or in a later one.  The reader stores one entry after another in two lists that stand
side by side.  Seen from the entries, in the order of the text, the keys are stored where they
were first seen, each with the value of its last entry (`Merged`); storing one more entry keeps
it so (`Merged.setEntry`), and hence reading a whole list does (`merged_gatherNotes`).

Main statement: every list that was read, at any depth, is written at one place of the text,
and holds what its elements there say (`listedAt_of_within`).
-/

namespace TreeWat.Datum

/-! ## Elements -/

/-- The entries that an element adds to the metadata of its list. -/
def Element.entries : Element → List (Bytes × Datum)
  | .item _ => []
  | .note keys values => keys.zip values

/-- Whether an element is an item. -/
def Element.isItem : Element → Bool
  | .item _ => true
  | .note .. => false

/-- The entries of all maps of metadata, in order. -/
def noteEntries (es : List Element) : List (Bytes × Datum) :=
  es.flatMap Element.entries

/-- The value of the last entry with the key. -/
def lastValue? (key : Bytes) (entries : List (Bytes × Datum)) : Option Datum :=
  entries.reverse.lookup key

section LastValue

variable {key : Bytes} {entries : List (Bytes × Datum)}

/-- A later entry hides the earlier ones of its key. -/
theorem lastValue?_concat (k : Bytes) (value : Datum) :
    (lastValue? · (entries ++ [(k, value)])) =
      Function.update (lastValue? · entries) k (some value) := by
  funext key
  rw [lastValue?, List.reverse_append, List.reverse_singleton, List.singleton_append,
    List.lookup_cons]
  by_cases same : key = k
  · subst same
    simp
  · rw [Function.update_of_ne same, beq_eq_false_iff_ne.mpr same]
    rfl

theorem lastValue?_eq_none_iff : lastValue? key entries = none ↔ key ∉ entries.map Prod.fst := by
  rw [lastValue?, List.lookup_eq_none_iff, List.mem_map]
  simp only [List.mem_reverse, bne_iff_ne]
  constructor
  · rintro absent ⟨entry, hentry, rfl⟩
    exact absent entry hentry rfl
  · rintro absent entry hentry rfl
    exact absent ⟨entry, hentry, rfl⟩

end LastValue

/-! ## Merging -/

/-- What is stored of the entries: each key once, in the order in which the keys came first,
and beside each key the value of its last entry. -/
structure Merged (entries : List (Bytes × Datum)) (keys : List Bytes) (values : List Datum) :
    Prop where
  order : keys = (entries.map Prod.fst).eraseDups
  distinct : keys.Nodup
  latest : values.map some = keys.map (lastValue? · entries)

section Merging

variable {entries : List (Bytes × Datum)} {key : Bytes} {value : Datum} {keys : List Bytes}
  {values : List Datum}

/-- The value under a key changes in its place, and all others stay. -/
theorem setEntry_values {valueOf : Bytes → Option Datum} (distinct : keys.Nodup)
    (parallel : values.map some = keys.map valueOf) :
    (setEntry key value keys values).2.map some =
      (setEntry key value keys values).1.map (Function.update valueOf key (some value)) := by
  fun_induction setEntry key value keys values with
  | case1 ks v vs =>
    -- the key is not stored a second time, so the entries behind are looked up as before
    obtain ⟨fresh, -⟩ := List.nodup_cons.mp distinct
    obtain ⟨-, others⟩ := List.cons.inj parallel
    have untouched : ks.map (Function.update valueOf key (some value)) = ks.map valueOf :=
      List.map_congr_left fun k hk => Function.update_of_ne (ne_of_mem_of_not_mem hk fresh) _ _
    rw [List.map_cons, List.map_cons, Function.update_self, untouched, others]
  | case2 k ks v vs other ks' vs' hset ih =>
    obtain ⟨-, distinct⟩ := List.nodup_cons.mp distinct
    obtain ⟨first, others⟩ := List.cons.inj parallel
    have below := ih distinct others
    rw [hset] at below
    rw [List.map_cons, List.map_cons, Function.update_of_ne other, first, below]
  | case3 keys values unpaired => simp

theorem entry?_eq_ite {valueOf : Bytes → Option Datum}
    (parallel : values.map some = keys.map valueOf) :
    entry? key keys values = if key ∈ keys then valueOf key else none := by
  induction keys generalizing values with
  | nil => cases values <;> rfl
  | cons k ks ih =>
    cases values with
    | nil => cases parallel
    | cons v vs =>
      obtain ⟨first, others⟩ := List.cons.inj parallel
      rw [ entry?, ih others]
      by_cases here : k = key
      · subst here
        simp [first]
      · simp [here, Ne.symm here]

namespace Merged

theorem nil : Merged [] [] [] :=
  ⟨rfl, List.nodup_nil, rfl⟩

theorem mem_keys (merged : Merged entries keys values) :
    key ∈ keys ↔ key ∈ entries.map Prod.fst := by
  rw [merged.order, List.mem_eraseDups]

theorem paired (merged : Merged entries keys values) : keys.length = values.length := by
  simpa using (congrArg List.length merged.latest).symm

/-- One more entry. -/
theorem setEntry (merged : Merged entries keys values) (key : Bytes) (value : Datum) :
    Merged (entries ++ [(key, value)]) (setEntry key value keys values).1
      (setEntry key value keys values).2 where
  order := by
    rw [setEntry_keys merged.paired, List.map_append, List.eraseDups_append, ← merged.order]
    by_cases stored : key ∈ keys
    · simp [stored, List.removeAll, merged.mem_keys.mp stored]
    · simp [stored, List.removeAll, mt merged.mem_keys.mpr stored]
      rfl
  distinct := setEntry_distinct merged.paired merged.distinct key value
  latest := by
    rw [lastValue?_concat]
    exact setEntry_values merged.distinct merged.latest

/-- The entries of one more map. -/
theorem setEntries {stored : List Bytes × List Datum}
    (merged : Merged entries stored.1 stored.2) (keys : List Bytes) (values : List Datum) :
    Merged (entries ++ keys.zip values) (setEntries keys values stored).1
      (setEntries keys values stored).2 := by
  fun_induction Datum.setEntries keys values stored generalizing entries with
  | case1 k ks v vs stored ih =>
    have others := ih (merged.setEntry k v)
    rwa [List.append_assoc] at others
  | case2 keys values stored unpaired =>
    have nothing : keys.zip values = [] := by
      rcases keys with _ | ⟨k, ks⟩
      · rfl
      · rcases values with _ | ⟨v, vs⟩
        · rfl
        · exact (unpaired k ks v vs rfl rfl).elim
    rwa [nothing, List.append_nil]

/-- Under each key stands the value of its last entry, and nothing under any other key. -/
theorem found_eq (merged : Merged entries keys values) (key : Bytes) :
    entry? key keys values = lastValue? key entries := by
  rw [entry?_eq_ite merged.latest]
  split
  · rfl
  · rename_i absent
    rw [lastValue?_eq_none_iff.mpr (mt merged.mem_keys.mpr absent)]

end Merged

end Merging

/-- All maps of a list are merged. -/
theorem merged_gatherNotes (es : List Element) :
    Merged (noteEntries es) (gatherNotes es).1 (gatherNotes es).2 := by
  -- the last map is the one that is stored last
  induction es using List.reverseRecOn with
  | nil => exact .nil
  | append_singleton es e ih =>
    rw [noteEntries, List.flatMap_append, List.flatMap_singleton]
    cases e with
    | item d =>
      rw [Element.entries, List.append_nil]
      exact (gatherNotes_append_items es [d]).symm ▸ ih
    | note keys values =>
      have step : gatherNotes (es ++ [.note keys values]) =
          setEntries keys values (gatherNotes es) := List.foldl_append
      rw [step]
      exact ih.setEntries keys values

/-- What a list holds of the elements that are written in it. -/
structure Gathered (loc : Location) (keys : List Bytes) (values items : List Datum)
    (es : List Element) : Prop where
  merged : Merged (noteEntries es) keys values
  found : ∀ key, (Datum.list loc keys values items).metadata? key = lastValue? key (noteEntries es)
  items : items.map Element.item = es.filter Element.isItem

theorem map_gatherItems (es : List Element) :
    (gatherItems es).map Element.item = es.filter Element.isItem := by
  induction es with
  | nil => rfl
  | cons e es ih =>
    cases e with
    | item d => exact congrArg (.item d :: ·) ih
    | note keys values => exact ih

theorem gathered_ofElements (loc : Location) (es : List Element) :
    Gathered loc (gatherNotes es).1 (gatherNotes es).2 (gatherItems es) es where
  merged := merged_gatherNotes es
  found := (merged_gatherNotes es).found_eq
  items := map_gatherItems es

/-! ## Lists in a text -/

/-- The text has a list at the location, with the elements in its brackets. -/
def ListedAt (s : Bytes) (loc : Location) (es : List Element) : Prop :=
  ∃ front body rest, s = front ++ byte '(' :: (body ++ rest) ∧ loc = Location.start.skip front ∧
    SpellsElements (loc.next (byte '(')) body rest es

/-- A location has one list at most. -/
theorem ListedAt.unique {s : Bytes} {loc : Location} {es es' : List Element}
    (h : ListedAt s loc es) (h' : ListedAt s loc es') : es = es' := by
  obtain ⟨front, body, rest, hs, hloc, contents⟩ := h
  obtain ⟨front', body', rest', hs', hloc', contents'⟩ := h'
  -- the same location is the same place, and the reader finds one list there
  have hlength : front.length = front'.length := by
    refine Location.skip_start_injective (s := s) (by simp [hs]) (by simp [hs']) ?_
    rw [hs, List.take_left, ← hs, hs', List.take_left, ← hloc, ← hloc']
  obtain ⟨-, hbehind⟩ := List.append_inj (hs.symm.trans hs') hlength
  have reads := contents.reads
  rw [(List.cons.inj hbehind).2] at reads
  obtain ⟨_, hread⟩ := reads
  obtain ⟨_, hread'⟩ := contents'.reads
  rw [hread] at hread'
  exact congrArg Prod.fst (Except.ok.inj hread')

/-- The text has a spelling of the datum. -/
def SpelledIn (s : Bytes) (d : Datum) : Prop :=
  ∃ front text rest, s = front ++ (text ++ rest) ∧
    Spells (Location.start.skip front) text rest d

section Parts

variable {s : Bytes}

mutual

/-- What stands in a derived datum is spelled where it stands. -/
theorem Spells.parts {loc : Location} {text rest : Bytes} {d : Datum} :
    Spells loc text rest d → ∀ (front : Bytes), s = front ++ (text ++ rest) →
      loc = Location.start.skip front → ∀ n, Within n d → SpelledIn s n
  | .integer numeral maximal, front, hs, hloc, n, within => by
    cases within
    exact ⟨front, _, _, hs, hloc ▸ .integer numeral maximal⟩
  | .symbol name maximal, front, hs, hloc, n, within => by
    cases within
    exact ⟨front, _, _, hs, hloc ▸ .symbol name maximal⟩
  | .string contents, front, hs, hloc, n, within => by
    cases within
    exact ⟨front, _, _, hs, hloc ▸ .string contents⟩
  | .list contents, front, hs, hloc, n, within => by
    have below := contents.parts (front ++ [byte '(']) (by simp [hs]) (by simp [hloc])
    cases within with
    | self => exact ⟨front, _, _, hs, hloc ▸ .list contents⟩
    | item isItem inside =>
      exact below _ (mem_gatherItems isItem) _ (List.mem_singleton_self _) n inside
    | metadata isValue inside =>
      obtain ⟨e, he, hv⟩ := mem_gatherNotes isValue
      exact below e he _ hv n inside
  | .map entries, front, hs, hloc, n, within => by
    cases within with
    | self => exact ⟨front, _, _, hs, hloc ▸ .map entries⟩
    | value isValue inside =>
      exact entries.parts (front ++ [byte '\x7b']) (by simp [hs]) (by simp [hloc]) _ isValue n
        inside

theorem SpellsElements.parts {loc : Location} {text rest : Bytes} {es : List Element} :
    SpellsElements loc text rest es → ∀ (front : Bytes), s = front ++ (text ++ rest) →
      loc = Location.start.skip front → ∀ e ∈ es, ∀ d ∈ e.data, ∀ n, Within n d → SpelledIn s n
  | .close _, _, _, _ => by simp
  | @SpellsElements.item _ ws text _ _ d _ _ first others, front, hs, hloc => by
    have hfirst := first.parts (front ++ ws) (by simp [hs]) (by simp [hloc])
    have hothers := others.parts (front ++ ws ++ text) (by simp [hs]) (by simp [hloc])
    exact List.forall_mem_cons.mpr ⟨List.forall_mem_singleton.mpr hfirst, hothers⟩
  | @SpellsElements.note _ ws text _ _ _ _ _ _ entries others, front, hs, hloc => by
    have hentries := entries.parts (front ++ ws ++ [byte '^', byte '\x7b']) (by simp [hs])
      (by simp [hloc])
    have hothers := others.parts (front ++ ws ++ [byte '^', byte '\x7b'] ++ text) (by simp [hs])
      (by simp [hloc])
    exact List.forall_mem_cons.mpr ⟨hentries, hothers⟩

theorem SpellsEntries.parts {loc : Location} {text rest : Bytes} {keys : List Bytes}
    {values : List Datum} :
    SpellsEntries loc text rest keys values → ∀ (front : Bytes), s = front ++ (text ++ rest) →
      loc = Location.start.skip front → ∀ v ∈ values, ∀ n, Within n v → SpelledIn s n
  | .close _, _, _, _ => by simp
  | .last first _, front, hs, hloc =>
    List.forall_mem_singleton.mpr (first.parts front (by simp [hs]) hloc)
  | @SpellsEntries.cons _ text ws _ _ _ _ _ _ first _ others, front, hs, hloc =>
    List.forall_mem_cons.mpr ⟨first.parts front (by simp [hs]) hloc,
      others.parts (front ++ text ++ ws ++ [byte ',']) (by simp [hs]) (by simp [hloc])⟩

theorem SpellsEntry.parts {loc : Location} {text rest key : Bytes} {value : Datum} :
    SpellsEntry loc text rest key value → ∀ (front : Bytes), s = front ++ (text ++ rest) →
      loc = Location.start.skip front → ∀ n, Within n value → SpelledIn s n
  | @SpellsEntry.intro _ ws₁ _ ws₂ ws₃ _ _ _ _ _ _ _ spelled, front, hs, hloc =>
    spelled.parts (front ++ ws₁ ++ key ++ ws₂ ++ [byte ':'] ++ ws₃) (by simp [hs]) (by simp [hloc])

end

end Parts

/-- A list that is spelled holds what is written in it. -/
theorem Spells.gathered {loc : Location} {text rest : Bytes} {listLoc : Location}
    {keys : List Bytes} {values items : List Datum}
    (spelled : Spells loc text rest (.list listLoc keys values items)) :
    listLoc = loc ∧ ∃ body es, text = byte '(' :: body ∧
      SpellsElements (loc.next (byte '(')) body rest es ∧
        Gathered listLoc keys values items es := by
  generalize hlist : Datum.list listLoc keys values items = d at spelled
  cases spelled with
  | @list _ body _ es contents =>
    rw [ofElements] at hlist
    cases hlist
    exact ⟨rfl, body, es, rfl, contents, gathered_ofElements loc es⟩
  | integer | symbol | string | map => cases hlist

/-- Every list that was read, at any depth, is written at its location, and holds what is
written there. -/
theorem listedAt_of_within {s : Bytes} {d : Datum} (hread : read s = .ok d) {loc : Location}
    {keys : List Bytes} {values items : List Datum}
    (within : Within (.list loc keys values items) d) :
    ∃ es, ListedAt s loc es ∧ Gathered loc keys values items es := by
  obtain ⟨ws, text, end_, hs, -, -, spelled⟩ := derives_of_read hread
  obtain ⟨front, text, rest, hs, spelled⟩ :=
    spelled.parts ws (hs.trans (List.append_assoc _ _ _)) rfl _ within
  obtain ⟨rfl, body, es, rfl, contents, gathered⟩ := spelled.gathered
  exact ⟨es, ⟨front, body, rest, hs, rfl, contents⟩, gathered⟩

end TreeWat.Datum
