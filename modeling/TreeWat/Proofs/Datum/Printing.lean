import TreeWat.Proofs.Datum.Reading
set_option autoImplicit false

/-!
# Data: reading what was printed

A datum is well formed if its symbols, integers and keys are spelled as the notation spells
them and if keys and values come in pairs.  Printing such a datum and reading the text
gives the datum back, except for the locations, which are those of the text.
-/

namespace TreeWat.Datum

/-! ## Well-formed data -/

/-- Whether a text is the spelling of a symbol. -/
def isSymbolText : Bytes → Bool
  | [] => false
  | b :: r => isSymbolStart b && !startsInteger b r && r.all isSymbolByte

/-- Whether a text is the spelling of an integer: digits, with or without a sign. -/
def isIntegerText : Bytes → Bool
  | [] => false
  | b :: r => startsInteger b r && r.all Bytes.isDigit

/-- Whether a text is the spelling of a key. -/
def isKeyText : Bytes → Bool
  | [] => false
  | b :: r => isWordStart b && r.all isSymbolByte

/-- The datum can be written in the notation. -/
inductive WellFormed : Datum → Prop where
  | symbol {loc text} (spelled : isSymbolText text = true) : WellFormed (.atom .symbol loc text)
  | integer {loc text} (spelled : isIntegerText text = true) :
      WellFormed (.atom .integer loc text)
  | string {loc text} : WellFormed (.atom .string loc text)
  | list {loc keys values items} (spelled : ∀ k ∈ keys, isKeyText k = true)
      (distinct : keys.Nodup) (paired : keys.length = values.length)
      (notes : ∀ v ∈ values, WellFormed v) (contents : ∀ d ∈ items, WellFormed d) :
      WellFormed (.list loc keys values items)
  | map {loc keys values} (spelled : ∀ k ∈ keys, isKeyText k = true)
      (paired : keys.length = values.length) (contents : ∀ v ∈ values, WellFormed v) :
      WellFormed (.map loc keys values)

mutual

/-- The datum without its locations. -/
def bare : Datum → Datum
  | .atom sort _ text => .atom sort .nowhere text
  | .list _ keys values items => .list .nowhere keys (bareAll values) (bareAll items)
  | .map _ keys values => .map .nowhere keys (bareAll values)
  | .foreign _ sort => .foreign .nowhere sort

/-- Data without their locations. -/
def bareAll : List Datum → List Datum
  | [] => []
  | d :: rest => bare d :: bareAll rest

end

theorem bare_eq_atom {d : Datum} {sort : AtomSort} {l : Location} {text : Bytes}
    (h : d.bare = .atom sort l text) : ∃ loc, d = .atom sort loc text := by
  cases d with
  | atom sort' loc text' =>
    rw [bare] at h
    cases h
    exact ⟨loc, rfl⟩
  | list | map | foreign =>
    rw [bare] at h
    cases h

theorem bare_eq_list {d : Datum} {l : Location} {keys : List Bytes} {values items : List Datum}
    (h : d.bare = .list l keys values items) :
    ∃ loc values' items', d = .list loc keys values' items' ∧ bareAll values' = values ∧
      bareAll items' = items := by
  cases d with
  | list loc keys' values' items' =>
    rw [bare] at h
    cases h
    exact ⟨loc, values', items', rfl, rfl, rfl⟩
  | atom | map | foreign =>
    rw [bare] at h
    cases h

theorem bareAll_eq_nil {ds : List Datum} (h : bareAll ds = []) : ds = [] := by
  cases ds with
  | nil => rfl
  | cons d rest =>
    rw [bareAll] at h
    cases h

theorem bareAll_eq_cons {ds rest : List Datum} {d : Datum} (h : bareAll ds = d :: rest) :
    ∃ d' rest', ds = d' :: rest' ∧ d'.bare = d ∧ bareAll rest' = rest := by
  cases ds with
  | nil =>
    rw [bareAll] at h
    cases h
  | cons d' rest' =>
    rw [bareAll] at h
    cases h
    exact ⟨d', rest', rfl, rfl, rfl⟩

/-! ## What stands next -/

/-- Whether a byte can be the first one of a datum. -/
def startsDatum (b : UInt8) : Bool :=
  b == byte '(' || b == byte '\x7b' || b == byte '"' || Bytes.isDigit b || isSymbolStart b

theorem startsDatum_ne {b x : UInt8} (starts : startsDatum b = true)
    (other : startsDatum x = false) : b ≠ x := by
  rintro rfl
  rw [starts] at other
  cases other

theorem skipBlanks_starts {loc : Location} {b : UInt8} {r : Bytes}
    (starts : startsDatum b = true) :
    (⟨loc, b :: r⟩ : Cursor).skipBlanks = ⟨loc, b :: r⟩ := by
  have hvisible : isBlank b = false := by
    simp [isBlank, startsDatum_ne starts (x := byte ' ') (by decide),
      startsDatum_ne starts (x := byte '\t') (by decide),
      startsDatum_ne starts (x := byte '\n') (by decide),
      startsDatum_ne starts (x := byte '\r') (by decide)]
  exact skipBlanks_visible hvisible (startsDatum_ne starts (by decide))

theorem startsDatum_of_startsInteger {b : UInt8} {r : Bytes} (starts : startsInteger b r = true) :
    startsDatum b = true := by
  simp only [startsInteger, Bool.or_eq_true, Bool.and_eq_true, beq_iff_eq] at starts
  rcases starts with hdigit | ⟨rfl | rfl, -⟩
  · simp [startsDatum, hdigit]
  · decide
  · decide

/-- The text of a well-formed datum starts as a datum does. -/
theorem WellFormed.print_start {d : Datum} (h : d.WellFormed) :
    ∃ b r, d.print = b :: r ∧ startsDatum b = true := by
  cases h with
  | @symbol _ text spelled =>
    cases text with
    | nil => cases spelled
    | cons b r =>
      simp only [isSymbolText, Bool.and_eq_true] at spelled
      exact ⟨b, r, by simp [print], by simp [startsDatum, spelled.1.1]⟩
  | @integer _ text spelled =>
    cases text with
    | nil => cases spelled
    | cons b r =>
      simp only [isIntegerText, Bool.and_eq_true] at spelled
      exact ⟨b, r, by simp [print], startsDatum_of_startsInteger spelled.1⟩
  | string => exact ⟨_, _, by rw [print, printString]; rfl, by decide⟩
  | @list _ keys _ _ =>
    cases keys with
    | nil => exact ⟨_, _, by rw [print]; rfl, by decide⟩
    | cons k ks => exact ⟨_, _, by rw [print]; rfl, by decide⟩
  | map => exact ⟨_, _, by rw [print]; rfl, by decide⟩

/-- What comes next does not continue a symbol or an integer. -/
def Delimited (rest : Bytes) : Prop :=
  ∀ b ∈ rest.head?, isSymbolByte b = false

theorem delimited_nil : Delimited [] := by
  intro b hb
  cases hb

theorem delimited_cons {b : UInt8} {r : Bytes} (h : isSymbolByte b = false) :
    Delimited (b :: r) := by
  intro b' hb
  cases hb
  exact h

theorem Delimited.noDigit {rest : Bytes} (h : Delimited rest) :
    ∀ b ∈ rest.head?, Bytes.isDigit b = false := by
  intro b hb
  have hsymbol := h b hb
  simp only [isSymbolByte, Bool.or_eq_false_iff] at hsymbol
  exact hsymbol.1.1.2

/-! ## Atoms -/

theorem takeRun_append {p : UInt8 → Bool} {s rest : Bytes} (loc : Location)
    (inside : s.all p = true) (outside : ∀ b ∈ rest.head?, p b = false) :
    takeRun p loc (s ++ rest) = (s, ⟨loc.skip s, rest⟩) := by
  have hall : ∀ b ∈ s, p b = true := by simpa using inside
  have htake : rest.takeWhile p = [] := by
    cases rest with
    | nil => rfl
    | cons b r => simp [outside b rfl]
  have hdrop : rest.dropWhile p = rest := by
    cases rest with
    | nil => rfl
    | cons b r => simp [outside b rfl]
  unfold takeRun
  rw [List.takeWhile_append_of_pos hall, List.dropWhile_append_of_pos hall, htake, hdrop,
    List.append_nil]

theorem startsInteger_append {b : UInt8} {r rest : Bytes} (delimited : Delimited rest) :
    startsInteger b (r ++ rest) = startsInteger b r := by
  cases r with
  | cons d r => rfl
  | nil =>
    cases rest with
    | nil => rfl
    | cons d rest => simp [startsInteger, delimited.noDigit d rfl]

/-- A printed string is read up to its closing quote. -/
theorem readsString_escapeString (text rest : Bytes) (loc : Location) :
    ∃ loc', ReadsString loc (escapeString text ++ byte '"' :: rest) text ⟨loc', rest⟩ := by
  induction text generalizing loc with
  | nil => exact ⟨_, .close loc rest⟩
  | cons b text ih =>
    by_cases hescape : b = byte '"' ∨ b = byte '\\'
    · obtain ⟨loc', hrest⟩ := ih ((loc.next (byte '\\')).next b)
      refine ⟨loc', ?_⟩
      rw [escapeString, if_pos hescape]
      exact .escape hescape hrest
    · obtain ⟨loc', hrest⟩ := ih (loc.next b)
      refine ⟨loc', ?_⟩
      rw [escapeString, if_neg hescape]
      exact .plain (fun h => hescape (.inl h)) (fun h => hescape (.inr h)) hrest

/-- The text of the datum is read as the datum, wherever it stands. -/
def ReadsBack (d : Datum) : Prop :=
  ∀ {c : Cursor} {loc : Location} {rest : Bytes}, c.skipBlanks = ⟨loc, d.print ++ rest⟩ →
    Delimited rest → ∃ d' loc', Reads c d' ⟨loc', rest⟩ ∧ d'.bare = d.bare

theorem readsBack_symbol {loc : Location} {text : Bytes} (spelled : isSymbolText text = true) :
    ReadsBack (.atom .symbol loc text) := by
  intro c loc' rest next delimited
  cases text with
  | nil => cases spelled
  | cons b r =>
    simp only [isSymbolText, Bool.and_eq_true, Bool.not_eq_true'] at spelled
    have hread := Reads.symbol (r := r ++ rest) (by simpa [print] using next) spelled.1.1
      (by rw [startsInteger_append delimited, spelled.1.2])
    rw [takeRun_append _ spelled.2 delimited] at hread
    exact ⟨_, _, hread, by simp [bare]⟩

theorem readsBack_integer {loc : Location} {text : Bytes} (spelled : isIntegerText text = true) :
    ReadsBack (.atom .integer loc text) := by
  intro c loc' rest next delimited
  cases text with
  | nil => cases spelled
  | cons b r =>
    simp only [isIntegerText, Bool.and_eq_true] at spelled
    have hread := Reads.integer (r := r ++ rest) (by simpa [print] using next)
      (by rw [startsInteger_append delimited, spelled.1])
    rw [takeRun_append _ spelled.2 delimited.noDigit] at hread
    exact ⟨_, _, hread, by simp [bare]⟩

theorem readsBack_string (loc : Location) (text : Bytes) :
    ReadsBack (.atom .string loc text) := by
  intro c loc' rest next _
  obtain ⟨loc'', hstring⟩ := readsString_escapeString text rest (loc'.next (byte '"'))
  have hread := Reads.string (by simpa [print, printString] using next) hstring
  exact ⟨_, _, hread, by simp [bare]⟩

/-! ## Items and entries -/

theorem bareAll_length (ds : List Datum) : (bareAll ds).length = ds.length := by
  induction ds with
  | nil => simp [bareAll]
  | cons d rest ih => simp [bareAll, ih]

theorem delimited_printItems (items : List Datum) (rest : Bytes) :
    Delimited (printItems true items ++ byte ')' :: rest) := by
  cases items with
  | nil => exact delimited_cons (by decide)
  | cons d r => exact delimited_cons (b := byte ' ') (by decide)

/-- Printed items are read as the items, up to the closing bracket. -/
theorem readsElements_printItems {items : List Datum} (formed : ∀ d ∈ items, d.WellFormed)
    (back : ∀ d ∈ items, ReadsBack d) (spaced : Bool) (loc : Location) (rest : Bytes) :
    ∃ items' loc', ReadsElements ⟨loc, printItems spaced items ++ byte ')' :: rest⟩
        (items'.map .item) ⟨loc', rest⟩ ∧ bareAll items' = bareAll items := by
  induction items generalizing spaced loc with
  | nil =>
    have next : (⟨loc, byte ')' :: rest⟩ : Cursor).skipBlanks = ⟨loc, byte ')' :: rest⟩ :=
      skipBlanks_visible (by decide) (by decide)
    exact ⟨[], _, .nil next, rfl⟩
  | cons d items ih =>
    obtain ⟨b, r, hprint, hstarts⟩ := (formed d List.mem_cons_self).print_start
    -- a blank in front of the item does not matter
    obtain ⟨loc₀, next⟩ : ∃ loc₀,
        (⟨loc, printItems spaced (d :: items) ++ byte ')' :: rest⟩ : Cursor).skipBlanks =
          ⟨loc₀, d.print ++ (printItems true items ++ byte ')' :: rest)⟩ := by
      cases spaced with
      | false =>
        refine ⟨loc, ?_⟩
        simp only [printItems, hprint, Bool.false_eq_true, if_false, List.nil_append,
          List.cons_append, List.append_assoc]
        exact skipBlanks_starts hstarts
      | true =>
        refine ⟨loc.next (byte ' '), ?_⟩
        simp only [printItems, hprint, if_true, List.append_assoc]
        exact (skipBlanks_blank (by decide)).trans (skipBlanks_starts hstarts)
    obtain ⟨d', loc₁, hfirst, hd'⟩ := back d List.mem_cons_self next (delimited_printItems _ _)
    obtain ⟨items', loc', hothers, hitems'⟩ := ih (fun d hd => formed d (List.mem_cons_of_mem _ hd))
      (fun d hd => back d (List.mem_cons_of_mem _ hd)) true loc₁
    rw [hprint] at next
    refine ⟨d' :: items', loc', ?_, by simp [bareAll, hd', hitems']⟩
    exact .item next (startsDatum_ne hstarts (by decide)) (startsDatum_ne hstarts (by decide))
      hfirst hothers

theorem printEntries_comma (k : Bytes) (ks : List Bytes) (v : Datum) (vs : List Datum) :
    printEntries false (k :: ks) (v :: vs) =
      byte ',' :: byte ' ' :: printEntries true (k :: ks) (v :: vs) := by
  simp only [printEntries, Bool.false_eq_true, if_false, if_true, List.nil_append]
  rfl

theorem delimited_printEntries (keys : List Bytes) (values : List Datum) (rest : Bytes) :
    Delimited (printEntries false keys values ++ byte '\x7d' :: rest) := by
  cases values with
  | nil => exact delimited_cons (b := byte '\x7d') (by decide)
  | cons v vs =>
    cases keys with
    | nil => exact delimited_cons (b := byte '\x7d') (by decide)
    | cons k ks => exact delimited_cons (b := byte ',') (by decide)

/-- A printed key is read up to its colon, and then its value is read. -/
theorem reads_printed_entry {b : UInt8} {r rest : Bytes} {v : Datum}
    (inside : r.all isSymbolByte = true) (formed : v.WellFormed) (back : ReadsBack v)
    (delimited : Delimited rest) (loc : Location) :
    ∃ loc₁ v' loc₂,
      takeRun isSymbolByte (loc.next b) (r ++ byte ':' :: byte ' ' :: (v.print ++ rest)) =
        (r, ⟨loc₁, byte ':' :: byte ' ' :: (v.print ++ rest)⟩) ∧
      Reads ⟨loc₁.next (byte ':'), byte ' ' :: (v.print ++ rest)⟩ v' ⟨loc₂, rest⟩ ∧
      v'.bare = v.bare := by
  obtain ⟨b', r', hprint, hstarts⟩ := formed.print_start
  have hcolon : Delimited (byte ':' :: byte ' ' :: (v.print ++ rest)) :=
    delimited_cons (by decide)
  have hkey := takeRun_append (loc.next b) inside hcolon
  have next : (⟨((loc.next b).skip r).next (byte ':'), byte ' ' :: (v.print ++ rest)⟩ :
      Cursor).skipBlanks =
      ⟨(((loc.next b).skip r).next (byte ':')).next (byte ' '), v.print ++ rest⟩ := by
    rw [skipBlanks_blank (by decide), hprint]
    exact skipBlanks_starts hstarts
  obtain ⟨v', loc₂, hvalue, hv'⟩ := back next delimited
  exact ⟨_, v', loc₂, hkey, hvalue, hv'⟩

theorem startsDatum_of_isWordStart {b : UInt8} (starts : isWordStart b = true) :
    startsDatum b = true := by
  simp [startsDatum, isSymbolStart, starts]

theorem skipBlanks_printEntries {keys : List Bytes} (spelled : ∀ k ∈ keys, isKeyText k = true)
    (values : List Datum) (loc : Location) (rest : Bytes) :
    (⟨loc, printEntries true keys values ++ byte '\x7d' :: rest⟩ : Cursor).skipBlanks =
      ⟨loc, printEntries true keys values ++ byte '\x7d' :: rest⟩ := by
  cases values with
  | nil => exact skipBlanks_visible (by decide) (by decide)
  | cons v vs =>
    cases keys with
    | nil => exact skipBlanks_visible (by decide) (by decide)
    | cons k ks =>
      have hk := spelled k List.mem_cons_self
      cases k with
      | nil => cases hk
      | cons b r =>
        simp only [isKeyText, Bool.and_eq_true] at hk
        exact skipBlanks_starts (startsDatum_of_isWordStart hk.1)

/-- Printed entries are read as the entries, up to the closing brace. -/
theorem readsEntries_printEntries {keys : List Bytes} {values : List Datum}
    (spelled : ∀ k ∈ keys, isKeyText k = true) (paired : keys.length = values.length)
    (formed : ∀ v ∈ values, v.WellFormed) (back : ∀ v ∈ values, ReadsBack v) {c : Cursor}
    {loc : Location} {rest : Bytes}
    (next : c.skipBlanks = ⟨loc, printEntries true keys values ++ byte '\x7d' :: rest⟩) :
    ∃ values' loc', ReadsEntries c keys values' ⟨loc', rest⟩ ∧
      bareAll values' = bareAll values := by
  induction values generalizing keys c loc with
  | nil =>
    obtain rfl : keys = [] := List.length_eq_zero_iff.mp paired
    exact ⟨[], _, .nil (by simpa [printEntries] using next), rfl⟩
  | cons v values ih =>
    cases keys with
    | nil => cases paired
    | cons k keys =>
      have hk := spelled k List.mem_cons_self
      cases k with
      | nil => cases hk
      | cons b r =>
        simp only [isKeyText, Bool.and_eq_true] at hk
        have hnext : c.skipBlanks = ⟨loc, b :: (r ++ byte ':' :: byte ' ' ::
            (v.print ++ (printEntries false keys values ++ byte '\x7d' :: rest)))⟩ := by
          rw [next, printEntries]
          simp only [if_true, List.nil_append, List.cons_append, List.append_assoc]
          rfl
        obtain ⟨loc₁, v', loc₂, hkey, hvalue, hv'⟩ := reads_printed_entry (b := b) hk.2
          (formed v List.mem_cons_self) (back v List.mem_cons_self)
          (delimited_printEntries keys values rest) loc
        have colon : (⟨loc₁, byte ':' :: byte ' ' ::
            (v.print ++ (printEntries false keys values ++ byte '\x7d' :: rest))⟩ :
            Cursor).skipBlanks = _ := skipBlanks_visible (by decide) (by decide)
        cases values with
        | nil =>
          obtain rfl : keys = [] := List.length_eq_zero_iff.mp (by simpa using paired)
          have brace : (⟨loc₂, printEntries false [] [] ++ byte '\x7d' :: rest⟩ :
              Cursor).skipBlanks = ⟨loc₂, byte '\x7d' :: rest⟩ := by
            rw [printEntries]
            exact skipBlanks_visible (by decide) (by decide)
          have hread := ReadsEntries.last hnext hk.1 (by rw [hkey]; exact colon) hvalue brace
          rw [hkey] at hread
          exact ⟨[v'], _, hread, by simp [bareAll, hv']⟩
        | cons w values =>
          cases keys with
          | nil => cases paired
          | cons k' keys =>
            have hspelled : ∀ k ∈ k' :: keys, isKeyText k = true := fun k hk =>
              spelled k (List.mem_cons_of_mem _ hk)
            have comma : (⟨loc₂, printEntries false (k' :: keys) (w :: values) ++
                byte '\x7d' :: rest⟩ : Cursor).skipBlanks = ⟨loc₂, byte ',' :: byte ' ' ::
                  (printEntries true (k' :: keys) (w :: values) ++ byte '\x7d' :: rest)⟩ := by
              rw [printEntries_comma]
              exact skipBlanks_visible (by decide) (by decide)
            obtain ⟨values', loc', hothers, hvalues'⟩ := ih hspelled (by simpa using paired)
              (fun v hv => formed v (List.mem_cons_of_mem _ hv))
              (fun v hv => back v (List.mem_cons_of_mem _ hv))
              ((skipBlanks_blank (by decide)).trans
                (skipBlanks_printEntries hspelled _ ((loc₂.next (byte ',')).next (byte ' ')) rest))
            have hread := ReadsEntries.cons hnext hk.1 (by rw [hkey]; exact colon) hvalue comma
              hothers
            rw [hkey] at hread
            refine ⟨v' :: values', loc', hread, ?_⟩
            rw [bareAll, bareAll, hv', hvalues']

/-! ## Metadata -/

theorem setEntry_fresh {key : Bytes} {keys : List Bytes} {values : List Datum}
    (fresh : key ∉ keys) (paired : keys.length = values.length) (value : Datum) :
    setEntry key value keys values = (keys ++ [key], values ++ [value]) := by
  induction keys generalizing values with
  | nil =>
    obtain rfl : values = [] := List.length_eq_zero_iff.mp paired.symm
    rfl
  | cons k keys ih =>
    cases values with
    | nil => cases paired
    | cons v values =>
      rw [List.mem_cons, not_or] at fresh
      rw [setEntry, if_neg (Ne.symm fresh.1), ih fresh.2 (by simpa using paired)]
      rfl

/-- Entries with new and distinct keys come to stand behind those that are there. -/
theorem setEntries_fresh {keys keys₀ : List Bytes} {values values₀ : List Datum}
    (distinct : (keys₀ ++ keys).Nodup) (paired : keys.length = values.length)
    (paired₀ : keys₀.length = values₀.length) :
    setEntries keys values (keys₀, values₀) = (keys₀ ++ keys, values₀ ++ values) := by
  induction keys generalizing values keys₀ values₀ with
  | nil =>
    obtain rfl : values = [] := List.length_eq_zero_iff.mp paired.symm
    simp [setEntries]
  | cons k keys ih =>
    cases values with
    | nil => cases paired
    | cons v values =>
      have hfresh : k ∉ keys₀ := by
        intro hk
        exact (List.nodup_append.mp distinct).2.2 k hk k List.mem_cons_self rfl
      rw [setEntries, setEntry_fresh hfresh paired₀,
        ih (by simpa using distinct) (by simpa using paired) (by simp [paired₀])]
      simp

theorem gatherItems_items (items : List Datum) : gatherItems (items.map .item) = items := by
  rw [gatherItems, List.filterMap_map]
  exact List.filterMap_some

theorem gatherNotes_append_items (es : List Element) (items : List Datum) :
    gatherNotes (es ++ items.map .item) = gatherNotes es := by
  induction items generalizing es with
  | nil => simp
  | cons d items ih =>
    have hstep : gatherNotes (es ++ [.item d]) = gatherNotes es := by
      simp [gatherNotes, List.foldl_append]
    rw [List.map_cons, ← List.singleton_append, ← List.append_assoc, ih, hstep]

/-- Contents without metadata make a list without metadata. -/
theorem ofElements_items (loc : Location) (items : List Datum) :
    ofElements loc (items.map .item) = .list loc [] [] items := by
  have hnotes : gatherNotes (items.map .item) = ([], []) := gatherNotes_append_items [] items
  rw [ofElements, gatherItems_items, hnotes]

/-- Metadata with distinct keys comes to stand in the list as it was written. -/
theorem ofElements_note {keys : List Bytes} {values : List Datum} (distinct : keys.Nodup)
    (paired : keys.length = values.length) (loc : Location) (items : List Datum) :
    ofElements loc (.note keys values :: items.map .item) = .list loc keys values items := by
  have hnotes : gatherNotes (.note keys values :: items.map .item) = (keys, values) := by
    refine (gatherNotes_append_items [.note keys values] items).trans ?_
    have hset : setEntries keys values ([], []) = ([] ++ keys, [] ++ values) :=
      setEntries_fresh distinct paired rfl
    exact hset
  have hitems : gatherItems (.note keys values :: items.map .item) = items :=
    gatherItems_items items
  rw [ofElements, hnotes, hitems]

/-! ## Reading back -/

theorem readsBack_list {loc : Location} {keys : List Bytes} {values items : List Datum}
    (spelled : ∀ k ∈ keys, isKeyText k = true) (distinct : keys.Nodup)
    (paired : keys.length = values.length) (notes : ∀ v ∈ values, v.WellFormed)
    (notesBack : ∀ v ∈ values, ReadsBack v) (contents : ∀ d ∈ items, d.WellFormed)
    (contentsBack : ∀ d ∈ items, ReadsBack d) : ReadsBack (.list loc keys values items) := by
  intro c loc₀ rest next _
  cases keys with
  | nil =>
    obtain rfl : values = [] := List.length_eq_zero_iff.mp paired.symm
    obtain ⟨items', loc', hitems, hbare⟩ := readsElements_printItems contents contentsBack false
      (loc₀.next (byte '(')) rest
    have hread := Reads.list (by simpa [print] using next) hitems
    rw [ofElements_items] at hread
    exact ⟨_, loc', hread, by simp [bare, hbare, bareAll]⟩
  | cons k keys =>
    have hnext : c.skipBlanks = ⟨loc₀, byte '(' :: byte '^' :: byte '\x7b' ::
        (printEntries true (k :: keys) values ++
          byte '\x7d' :: (printItems true items ++ byte ')' :: rest))⟩ := by
      rw [next, print, if_neg (by simp)]
      simp only [List.append_assoc]
      rfl
    obtain ⟨values', loc₁, hentries, hvalues⟩ := readsEntries_printEntries spelled paired notes
      notesBack (skipBlanks_printEntries spelled values
        (((loc₀.next (byte '(')).next (byte '^')).next (byte '\x7b'))
        (printItems true items ++ byte ')' :: rest))
    obtain ⟨items', loc', hitems, hbare⟩ := readsElements_printItems contents contentsBack true
      loc₁ rest
    have hlength : (k :: keys).length = values'.length := by
      rw [paired, ← bareAll_length values, ← hvalues, bareAll_length]
    have hread := Reads.list hnext (.note (skipBlanks_visible (by decide) (by decide)) hentries hitems)
    rw [ofElements_note distinct hlength] at hread
    exact ⟨_, loc', hread, by simp [bare, hbare, hvalues]⟩

theorem readsBack_map {loc : Location} {keys : List Bytes} {values : List Datum}
    (spelled : ∀ k ∈ keys, isKeyText k = true) (paired : keys.length = values.length)
    (contents : ∀ v ∈ values, v.WellFormed) (back : ∀ v ∈ values, ReadsBack v) :
    ReadsBack (.map loc keys values) := by
  intro c loc₀ rest next _
  have hnext : c.skipBlanks =
      ⟨loc₀, byte '\x7b' :: (printEntries true keys values ++ byte '\x7d' :: rest)⟩ := by
    rw [next, print]
    simp only [List.append_assoc]
    rfl
  obtain ⟨values', loc', hentries, hvalues⟩ := readsEntries_printEntries spelled paired contents
    back (skipBlanks_printEntries spelled values (loc₀.next (byte '\x7b')) rest)
  exact ⟨_, loc', .map hnext hentries, by simp [bare, hvalues]⟩

/-- Every well-formed datum is read back. -/
theorem WellFormed.readsBack {d : Datum} (h : d.WellFormed) : ReadsBack d := by
  induction h with
  | symbol spelled => exact readsBack_symbol spelled
  | integer spelled => exact readsBack_integer spelled
  | string => exact readsBack_string _ _
  | list spelled distinct paired notes contents notesBack contentsBack =>
    exact readsBack_list spelled distinct paired notes notesBack contents contentsBack
  | map spelled paired contents back => exact readsBack_map spelled paired contents back

/-- A text that was printed reads as the datum that was printed, with the locations of the
text. -/
theorem read_print {d : Datum} (h : d.WellFormed) :
    ∃ d', read d.print = .ok d' ∧ d'.bare = d.bare := by
  obtain ⟨b, r, hprint, hstarts⟩ := h.print_start
  have next : (⟨.start, d.print⟩ : Cursor).skipBlanks = ⟨.start, d.print ++ []⟩ := by
    rw [hprint, List.append_nil]
    exact skipBlanks_starts hstarts
  obtain ⟨d', loc', hread, hbare⟩ := h.readsBack next delimited_nil
  exact ⟨d', read_of_reads hread rfl, hbare⟩

end TreeWat.Datum
