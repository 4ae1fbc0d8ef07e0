import TreeWat.Proofs.Datum.Grammar
set_option autoImplicit false

/-!
# Data: reading and printing undo each other

Whatever the reader gives is well formed: atoms and keys are tokens of the grammar, keys
and values come in pairs, and the maps of metadata of a list are merged into one whose keys
are distinct.

Main statement: a well-formed datum that is printed is read back, up to locations, and
everything that is read is well formed, so printing and reading what was read changes
nothing but locations (`reading_undoes_printing`).
-/

namespace TreeWat.Datum

/-! ## Merged metadata -/

/-- A key that is stored already keeps its place, a new one comes last. -/
theorem setEntry_keys {keys : List Bytes} {values : List Datum}
    (paired : keys.length = values.length) (key : Bytes) (value : Datum) :
    (setEntry key value keys values).1 = if key ∈ keys then keys else keys ++ [key] := by
  fun_induction setEntry key value keys values with
  | case1 => simp
  | case2 k ks v vs other ks' vs' hset ih =>
    have hkeys : ks' = if key ∈ ks then ks else ks ++ [key] := by
      simpa [hset] using ih (by simpa using paired)
    simp only [hkeys, List.mem_cons, Ne.symm other, false_or]
    split <;> rfl
  | case3 keys values unpaired =>
    cases keys with
    | nil => rfl
    | cons k ks =>
      cases values with
      | nil => cases paired
      | cons v vs => exact (unpaired k ks v vs rfl rfl).elim

theorem setEntry_paired {keys : List Bytes} {values : List Datum}
    (paired : keys.length = values.length) (key : Bytes) (value : Datum) :
    (setEntry key value keys values).1.length = (setEntry key value keys values).2.length := by
  fun_induction setEntry key value keys values with
  | case1 => simpa using paired
  | case2 k ks v vs other ks' vs' hset ih =>
    have hlength := ih (by simpa using paired)
    rw [hset] at hlength
    simpa using hlength
  | case3 => rfl

/-- No key is stored twice. -/
theorem setEntry_distinct {keys : List Bytes} {values : List Datum}
    (paired : keys.length = values.length) (distinct : keys.Nodup) (key : Bytes) (value : Datum) :
    (setEntry key value keys values).1.Nodup := by
  rw [setEntry_keys paired]
  split
  · exact distinct
  · rename_i fresh
    refine List.nodup_append.mpr ⟨distinct, by simp, ?_⟩
    rintro k hk _ hkey rfl
    exact fresh (List.mem_singleton.mp hkey ▸ hk)

theorem mem_setEntry {keys : List Bytes} {values : List Datum} {key : Bytes} {value v : Datum}
    (stored : v ∈ (setEntry key value keys values).2) : v = value ∨ v ∈ values := by
  fun_induction setEntry key value keys values with
  | case1 =>
    rcases List.mem_cons.mp stored with rfl | hv
    · exact .inl rfl
    · exact .inr (List.mem_cons_of_mem _ hv)
  | case2 k ks w vs other ks' vs' hset ih =>
    rcases List.mem_cons.mp stored with rfl | hv
    · exact .inr List.mem_cons_self
    · rw [hset] at ih
      exact (ih hv).imp_right (List.mem_cons_of_mem _)
  | case3 => exact .inl (by simpa using stored)

/-- Keys and values that can be the entries of a map. -/
structure EntriesFormed (keys : List Bytes) (values : List Datum) : Prop where
  spelled : ∀ k ∈ keys, isKeyText k = true
  paired : keys.length = values.length
  contents : ∀ v ∈ values, v.WellFormed

/-- Keys and values that can be the metadata of a list. -/
structure NotesFormed (keys : List Bytes) (values : List Datum) : Prop
    extends EntriesFormed keys values where
  distinct : keys.Nodup

theorem NotesFormed.nil : NotesFormed [] [] := by
  refine ⟨⟨?_, rfl, ?_⟩, List.nodup_nil⟩ <;> simp

theorem EntriesFormed.nil : EntriesFormed [] [] :=
  NotesFormed.nil.toEntriesFormed

section Entries

variable {key : Bytes} {value : Datum} {keys : List Bytes} {values : List Datum}

theorem EntriesFormed.cons (isKey : isKeyText key = true) (formed : value.WellFormed)
    (others : EntriesFormed keys values) : EntriesFormed (key :: keys) (value :: values) where
  spelled := List.forall_mem_cons.mpr ⟨isKey, others.spelled⟩
  paired := by simp [others.paired]
  contents := List.forall_mem_cons.mpr ⟨formed, others.contents⟩

theorem EntriesFormed.of_cons (formed : EntriesFormed (key :: keys) (value :: values)) :
    isKeyText key = true ∧ value.WellFormed ∧ EntriesFormed keys values := by
  obtain ⟨isKey, spelled⟩ := List.forall_mem_cons.mp formed.spelled
  obtain ⟨hvalue, contents⟩ := List.forall_mem_cons.mp formed.contents
  exact ⟨isKey, hvalue, spelled, by simpa using formed.paired, contents⟩

/-- Storing an entry keeps the metadata well formed. -/
theorem NotesFormed.setEntry (stored : NotesFormed keys values) (isKey : isKeyText key = true)
    (formed : value.WellFormed) :
    NotesFormed (setEntry key value keys values).1 (setEntry key value keys values).2 := by
  refine ⟨⟨?_, setEntry_paired stored.paired key value, ?_⟩,
    setEntry_distinct stored.paired stored.distinct key value⟩
  · rw [setEntry_keys stored.paired]
    split
    · exact stored.spelled
    · exact List.forall_mem_append.mpr ⟨stored.spelled, by simpa using isKey⟩
  · intro v hv
    rcases mem_setEntry hv with rfl | hv
    · exact formed
    · exact stored.contents v hv

theorem NotesFormed.setEntries {stored : List Bytes × List Datum}
    (formed : EntriesFormed keys values) (before : NotesFormed stored.1 stored.2) :
    NotesFormed (setEntries keys values stored).1 (setEntries keys values stored).2 := by
  fun_induction Datum.setEntries keys values stored with
  | case1 k ks v vs stored ih =>
    obtain ⟨isKey, hvalue, others⟩ := formed.of_cons
    exact ih others (before.setEntry isKey hvalue)
  | case2 => exact before

end Entries

/-- What may stand in a list. -/
def Element.WellFormed : Element → Prop
  | .item d => d.WellFormed
  | .note keys values => EntriesFormed keys values

theorem gatherNotes_formed {es : List Element} (formed : ∀ e ∈ es, e.WellFormed) :
    NotesFormed (gatherNotes es).1 (gatherNotes es).2 := by
  let Formed : List Bytes × List Datum → Prop := fun notes => NotesFormed notes.1 notes.2
  refine List.foldlRecOn (motive := Formed) es _ .nil ?_
  intro stored before e he
  cases e with
  | item d => exact before
  | note keys values => exact .setEntries (formed _ he) before

theorem mem_gatherItems {es : List Element} {d : Datum} (h : d ∈ gatherItems es) :
    .item d ∈ es := by
  obtain ⟨e, he, hitem⟩ := List.mem_filterMap.mp h
  cases e with
  | item d' =>
    cases hitem
    exact he
  | note => cases hitem

/-- Well-formed contents make a well-formed list. -/
theorem ofElements_formed {es : List Element} (formed : ∀ e ∈ es, e.WellFormed)
    (loc : Location) : (ofElements loc es).WellFormed := by
  have hnotes := gatherNotes_formed formed
  exact .list hnotes.spelled hnotes.distinct hnotes.paired hnotes.contents
    fun d hd => formed (.item d) (mem_gatherItems hd)

/-! ## What the grammar derives is well formed -/

mutual

theorem Spells.formed {loc : Location} {text rest : Bytes} {d : Datum} :
    Spells loc text rest d → d.WellFormed
  | .integer numeral _ => .integer (isIntegerText_iff.mpr numeral)
  | .symbol name _ => .symbol (isSymbolText_iff.mpr name)
  | .string _ => .string
  | .list contents => ofElements_formed contents.formed loc
  | .map entries => .map entries.formed.spelled entries.formed.paired entries.formed.contents

theorem SpellsElements.formed {loc : Location} {text rest : Bytes} {es : List Element} :
    SpellsElements loc text rest es → ∀ e ∈ es, e.WellFormed
  | .close _ => by simp
  | .item _ first others => List.forall_mem_cons.mpr ⟨first.formed, others.formed⟩
  | .note _ entries others => List.forall_mem_cons.mpr ⟨entries.formed, others.formed⟩

theorem SpellsEntries.formed {loc : Location} {text rest : Bytes} {keys : List Bytes}
    {values : List Datum} :
    SpellsEntries loc text rest keys values → EntriesFormed keys values
  | .close _ => .nil
  | .last first _ => .cons first.formed.1 first.formed.2 .nil
  | .cons first _ others => .cons first.formed.1 first.formed.2 others.formed

theorem SpellsEntry.formed {loc : Location} {text rest key : Bytes} {value : Datum} :
    SpellsEntry loc text rest key value → isKeyText key = true ∧ value.WellFormed
  | .intro _ isKey _ _ spelled => ⟨isKeyText_iff.mpr isKey, spelled.formed⟩

end

/-- Everything that is read is well formed. -/
theorem wellFormed_of_read {s : Bytes} {d : Datum} (hread : read s = .ok d) : d.WellFormed := by
  obtain ⟨_, _, _, _, _, _, spelled⟩ := derives_of_read hread
  exact spelled.formed

/-! ## Reading and printing -/

/-- A well-formed datum is read back from its text, up to locations, and everything that is
read is well formed and hence read back itself. -/
theorem reading_undoes_printing :
    (∀ d : Datum, d.WellFormed → ∃ d', read d.print = .ok d' ∧ d'.bare = d.bare) ∧
      ∀ s d, read s = .ok d → d.WellFormed ∧ ∃ d', read d.print = .ok d' ∧ d'.bare = d.bare := by
  refine ⟨fun d formed => read_print formed, fun s d hread => ?_⟩
  have formed := wellFormed_of_read hread
  exact ⟨formed, read_print formed⟩

/-- A list of a sign, a number and an empty string, with metadata: a map that has one key
twice, and a string of awkward bytes. -/
def awkwardList : Datum :=
  .list .nowhere [utf8 "k-1", utf8 "_"]
    [.map .nowhere [utf8 "k", utf8 "k"] [.atom .symbol .nowhere (utf8 "+-1"), .list .nowhere [] [] []],
      .atom .string .nowhere [byte '"', byte '\\', byte '\n', 0, 255]]
    [.atom .symbol .nowhere (utf8 "-"), .atom .integer .nowhere (utf8 "+07"),
      .atom .string .nowhere []]

/-- The awkward list is read back, and what is read from its text is well formed. -/
theorem awkwardList_read_back :
    awkwardList.WellFormed ∧ ∃ d', read awkwardList.print = .ok d' ∧
      d'.bare = awkwardList.bare ∧ d'.WellFormed := by
  have hmap : WellFormed (.map .nowhere [utf8 "k", utf8 "k"]
      [.atom .symbol .nowhere (utf8 "+-1"), .list .nowhere [] [] []]) := by
    have hempty : WellFormed (.list .nowhere [] [] []) :=
      .list (by simp) (by simp) rfl (by simp) (by simp)
    exact .map (by decide) rfl (by simpa using ⟨.symbol (by decide), hempty⟩)
  have hformed : awkwardList.WellFormed := by
    refine .list (by decide) (by decide) rfl ?_ ?_
    · simpa using ⟨hmap, .string⟩
    · simpa using ⟨.symbol (by decide), .integer (by decide), .string⟩
  obtain ⟨d', hread, hbare⟩ := reading_undoes_printing.1 awkwardList hformed
  exact ⟨hformed, d', hread, hbare, (reading_undoes_printing.2 _ d' hread).1⟩

end TreeWat.Datum
