import Mathlib.Data.List.DropRight
import TreeWat.Proofs.Datum.Grammar
set_option autoImplicit false

/-!
# Data: line breaks at the end of a text

The last line of a text may have an end or not: the same data are read from both.  A datum
never ends in a line break (`Spells.endsVisibly`), what ends a number or a symbol does not matter
(`Spells.with_rest`), and a comment in the last line needs no end (`Spacing.of_append_break`).

Main statement: `read_trimEnd_ok_iff`, for any number of line breaks.
-/

namespace TreeWat.Datum

/-! ## What stands behind a datum -/

/-- The second text ends a number or a symbol wherever the first does. -/
def EndsAlike (rest rest' : Bytes) : Prop :=
  ∀ b ∈ rest'.head?, rest.head? = some b ∨ isSymbolByte b = false

theorem EndsAlike.append {rest rest' : Bytes} (h : EndsAlike rest rest') (s : Bytes) :
    EndsAlike (s ++ rest) (s ++ rest') := by
  cases s with
  | nil => exact h
  | cons b s => exact fun c hc => .inl hc

theorem EndsAlike.maximal {rest rest' : Bytes} (h : EndsAlike rest rest')
    (maximal : ∀ b ∈ rest.head?, isSymbolByte b = false) :
    ∀ b ∈ rest'.head?, isSymbolByte b = false := by
  intro b hb
  rcases h b hb with hsame | hend
  · exact maximal b hsame
  · exact hend

theorem isDigit_of_isSymbolByte {b : UInt8} :
    isSymbolByte b = false → Bytes.isDigit b = false :=
  forall_byte (P := fun b => isSymbolByte b = false → Bytes.isDigit b = false)
    (by decide +kernel) b

mutual

theorem Spells.with_rest {loc : Location} {text rest : Bytes} {d : Datum} :
    Spells loc text rest d → ∀ {rest'}, EndsAlike rest rest' → Spells loc text rest' d
  | .integer numeral maximal, _, h => .integer numeral fun b hb => by
    rcases h b hb with hsame | hend
    · exact maximal b hsame
    · exact isDigit_of_isSymbolByte hend
  | .symbol name maximal, _, h => .symbol name (h.maximal maximal)
  | .string contents, _, _ => .string contents
  | .list contents, _, h => .list (contents.with_rest h)
  | .map entries, _, h => .map (entries.with_rest h)

theorem SpellsElements.with_rest {loc : Location} {text rest : Bytes} {es : List Element} :
    SpellsElements loc text rest es → ∀ {rest'}, EndsAlike rest rest' →
      SpellsElements loc text rest' es
  | .close space, _, _ => .close space
  | .item space first others, _, h =>
    .item space (first.with_rest (h.append _)) (others.with_rest h)
  | .note space entries others, _, h =>
    .note space (entries.with_rest (h.append _)) (others.with_rest h)

theorem SpellsEntries.with_rest {loc : Location} {text rest : Bytes} {keys : List Bytes}
    {values : List Datum} :
    SpellsEntries loc text rest keys values → ∀ {rest'}, EndsAlike rest rest' →
      SpellsEntries loc text rest' keys values
  | .close space, _, _ => .close space
  | @SpellsEntries.last _ _ ws _ _ _ first space, _, h =>
    .last (first.with_rest ((h.append [byte '\x7d']).append ws)) space
  | @SpellsEntries.cons _ _ ws more _ _ _ _ _ first space others, _, h =>
    .cons (first.with_rest (((h.append more).append [byte ',']).append ws)) space
      (others.with_rest h)

theorem SpellsEntry.with_rest {loc : Location} {text rest key : Bytes} {value : Datum} :
    SpellsEntry loc text rest key value → ∀ {rest'}, EndsAlike rest rest' →
      SpellsEntry loc text rest' key value
  | .intro space₁ isKey space₂ space₃ spelled, _, h =>
    .intro space₁ isKey space₂ space₃ (spelled.with_rest h)

end

/-! ## The last byte of a datum -/

/-- The text ends, and not in a line break. -/
def EndsVisibly (text : Bytes) : Prop :=
  ∃ r b, text = r ++ [b] ∧ b ≠ byte '\n'

theorem EndsVisibly.prepend {text : Bytes} (h : EndsVisibly text) (s : Bytes) :
    EndsVisibly (s ++ text) := by
  obtain ⟨r, b, rfl, hb⟩ := h
  exact ⟨s ++ r, b, (List.append_assoc _ _ _).symm, hb⟩

theorem EndsVisibly.single {b : UInt8} (hb : b ≠ byte '\n') : EndsVisibly [b] :=
  ⟨[], b, rfl, hb⟩

/-- A text without line breaks that is not empty. -/
theorem endsVisibly_of_forall {text : Bytes} (some : text ≠ [])
    (visible : ∀ b ∈ text, b ≠ byte '\n') : EndsVisibly text :=
  ⟨_, _, (List.dropLast_append_getLast some).symm, visible _ (List.getLast_mem some)⟩

theorem isSymbolByte_ne_break {b : UInt8} (h : isSymbolByte b = true) : b ≠ byte '\n' := by
  rintro rfl
  exact absurd h (by decide)

mutual

/-- A derived datum does not end in a line break. -/
theorem Spells.endsVisibly {loc : Location} {text rest : Bytes} {d : Datum} :
    Spells loc text rest d → EndsVisibly text
  | .integer numeral _ => by
    obtain ⟨sign, digits, rfl, -, some, hdigits⟩ := numeral
    refine (endsVisibly_of_forall some fun b hb => ?_).prepend sign
    rintro rfl
    exact absurd (hdigits _ hb) (by decide)
  | .symbol name _ => by
    obtain ⟨b, r, rfl, starts, inside, -⟩ := name
    refine endsVisibly_of_forall (by simp) (List.forall_mem_cons.mpr
      ⟨?_, fun x hx => isSymbolByte_ne_break (inside x hx)⟩)
    rintro rfl
    exact absurd starts (by decide)
  | @Spells.string _ raw _ _ _ =>
    ((EndsVisibly.single (by decide)).prepend raw).prepend [byte '"']
  | .list contents => contents.endsVisibly.prepend [byte '(']
  | .map entries => entries.endsVisibly.prepend [byte '\x7b']

theorem SpellsElements.endsVisibly {loc : Location} {text rest : Bytes} {es : List Element} :
    SpellsElements loc text rest es → EndsVisibly text
  | .close _ => (EndsVisibly.single (by decide)).prepend _
  | .item _ _ others => others.endsVisibly.prepend _
  | @SpellsElements.note _ ws text _ _ _ _ _ _ _ others =>
    ((others.endsVisibly.prepend text).prepend [byte '^', byte '\x7b']).prepend ws

theorem SpellsEntries.endsVisibly {loc : Location} {text rest : Bytes} {keys : List Bytes}
    {values : List Datum} : SpellsEntries loc text rest keys values → EndsVisibly text
  | .close _ => (EndsVisibly.single (by decide)).prepend _
  | .last _ _ => (EndsVisibly.single (by decide)).prepend _
  | @SpellsEntries.cons _ text ws _ _ _ _ _ _ _ _ others =>
    (others.endsVisibly.prepend [byte ',']).prepend (text ++ ws)

end

/-! ## White space at the end -/

theorem Spacing.append_break {s : Bytes} {atEnd : Bool} (space : Spacing atEnd s) :
    Spacing atEnd (s ++ [byte '\n']) := by
  induction space with
  | none => exact .blank (by decide) .none
  | blank isBlank _ ih => exact .blank isBlank ih
  | @comment _ line t oneLine _ ih =>
    rw [List.cons_append, List.append_assoc, List.cons_append]
    exact .comment oneLine ih
  | lastComment oneLine => exact .comment oneLine .none

/-- The break may end a comment, which then ends with the text. -/
theorem Spacing.of_append_break {s : Bytes} {atEnd : Bool}
    (space : Spacing atEnd (s ++ [byte '\n'])) : Spacing true s := by
  generalize htext : s ++ [byte '\n'] = t at space
  induction space generalizing s with
  | none => exact absurd htext (by simp)
  | blank isBlank _ ih =>
    cases s with
    | nil => exact .none
    | cons c s =>
      obtain ⟨hhead, htail⟩ := List.cons.inj htext
      exact .blank (hhead ▸ isBlank) (ih htail)
  | @comment _ line t oneLine _ ih =>
    cases s with
    | nil => exact absurd (List.cons.inj htext).1 (by decide)
    | cons c s =>
      obtain ⟨rfl, htail⟩ := List.cons.inj htext
      rcases List.eq_nil_or_concat t with rfl | ⟨t, last, rfl⟩
      · obtain rfl : s = line := List.append_cancel_right htail
        exact .lastComment oneLine
      · have hsplit : s ++ [byte '\n'] = (line ++ byte '\n' :: t) ++ [last] := by
          simpa using htail
        obtain ⟨rfl, hlast⟩ := List.append_inj' hsplit rfl
        exact .comment oneLine (ih (by rw [(List.cons.inj hlast).1, List.concat_eq_append]))
  | @lastComment line oneLine =>
    cases s with
    | nil => exact absurd (List.cons.inj htext).1 (by decide)
    | cons c s =>
      obtain ⟨-, rfl⟩ := List.cons.inj htext
      exact absurd (List.mem_append_right s (List.mem_singleton_self _)) oneLine

theorem endsAlike_append_break (s : Bytes) : EndsAlike s (s ++ [byte '\n']) := by
  cases s with
  | nil => exact fun b hb => .inr (Option.some.inj hb ▸ by decide)
  | cons c s => exact fun b hb => .inl hb

theorem endsAlike_of_append_break (s : Bytes) : EndsAlike (s ++ [byte '\n']) s := by
  cases s with
  | nil => exact fun b hb => absurd hb (by simp)
  | cons c s => exact fun b hb => .inl hb

theorem derives_append_break_iff {s : Bytes} {d : Datum} :
    Derives (s ++ [byte '\n']) d ↔ Derives s d := by
  constructor
  · rintro ⟨ws, text, end_, hs, front, back, spelled⟩
    rcases List.eq_nil_or_concat end_ with rfl | ⟨end_, last, rfl⟩
    · -- the break would be the last byte of the datum
      obtain ⟨r, b, hvisible, hb⟩ := spelled.endsVisibly.prepend ws
      rw [List.append_nil, hvisible] at hs
      exact absurd (List.cons.inj (List.append_inj' hs rfl).2).1.symm hb
    · have hsplit : s ++ [byte '\n'] = (ws ++ text ++ end_) ++ [last] := by simpa using hs
      obtain ⟨rfl, hlast⟩ := List.append_inj' hsplit rfl
      obtain rfl := (List.cons.inj hlast).1
      rw [List.concat_eq_append] at back spelled
      exact ⟨ws, text, end_, rfl, front, back.of_append_break,
        spelled.with_rest (endsAlike_of_append_break end_)⟩
  · rintro ⟨ws, text, end_, rfl, front, back, spelled⟩
    exact ⟨ws, text, end_ ++ [byte '\n'], List.append_assoc _ _ _, front, back.append_break,
      spelled.with_rest (endsAlike_append_break end_)⟩

/-- The same data are read from a text without the line breaks at its end. -/
theorem read_trimEnd_ok_iff {s : Bytes} {d : Datum} :
    read (Bytes.trimEnd (· == byte '\n') s) = .ok d ↔ read s = .ok d := by
  induction s using List.reverseRecOn with
  | nil => exact Iff.rfl
  | append_singleton s b ih =>
    by_cases hbreak : b = byte '\n'
    · subst hbreak
      have htrim : Bytes.trimEnd (· == byte '\n') (s ++ [byte '\n']) =
          Bytes.trimEnd (· == byte '\n') s := List.rdropWhile_concat_pos _ _ _ (by decide)
      rw [htrim, ih, (read_ok_iff_derives _).1, (read_ok_iff_derives _).1,
        derives_append_break_iff]
    · have htrim : Bytes.trimEnd (· == byte '\n') (s ++ [b]) = s ++ [b] :=
        List.rdropWhile_concat_neg _ _ _ (by simpa using hbreak)
      rw [htrim]

end TreeWat.Datum
