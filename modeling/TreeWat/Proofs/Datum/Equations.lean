import TreeWat.Proofs.Datum.Reading
import TreeWat.Proofs.Tree
set_option autoImplicit false

/-!
# Datum: the reader, case by case

The results of the reader without the proofs that the input has become shorter, errors
included: one equation for each thing that can stand next.
-/

namespace TreeWat.Datum

section Results

variable {ε α β γ : Type} {x : Except ε α}

/-- A result comes from the result it was made of. -/
theorem map_ok_iff {f : α → β} {b : β} : x.map f = .ok b ↔ ∃ a, x = .ok a ∧ f a = b := by
  cases x <;> simp [Except.map]

theorem map_map (f : α → β) (g : β → γ) : (x.map f).map g = x.map fun a => g (f a) := by
  cases x <;> rfl

end Results

variable {c c' : Cursor} {loc : Location} {b : UInt8} {r : Bytes}

/-- A datum and what is behind it. -/
def datumAt (c : Cursor) : Except ReadError (Datum × Cursor) :=
  (readDatum c).map fun p => (p.1, p.2.1)

/-- The contents of a list and what is behind it. -/
def elementsAt (c : Cursor) : Except ReadError (List Element × Cursor) :=
  (readElements c).map fun p => (p.1, p.2.1)

/-- The entries of a map and what is behind it. -/
def entriesAt (c : Cursor) : Except ReadError ((List Bytes × List Datum) × Cursor) :=
  (readEntries c).map fun p => ((p.1, p.2.1), p.2.2.1)

/-- The rest of a string and what is behind it. -/
def stringAt (c : Cursor) : Except ReadError (Bytes × Cursor) :=
  (readString c.loc c.rest).map fun p => (p.1, p.2.1)

/-- What stands behind blanks is no blank. -/
theorem skipBlanksFrom_skipped {comment : Bool} {s : Bytes}
    (next : skipBlanksFrom comment loc s = c) : c.skipBlanks = c := by
  induction s generalizing comment loc with
  | nil =>
    subst next
    rfl
  | cons b r ih =>
    rw [skipBlanksFrom] at next
    split at next
    · exact ih next
    · split at next
      · exact ih next
      · rename_i noComment
        split at next
        · exact ih next
        · rename_i visible
          subst next
          exact skipBlanks_visible (by simpa using visible) noComment

theorem skipBlanks_skipBlanks (c : Cursor) : c.skipBlanks.skipBlanks = c.skipBlanks :=
  skipBlanksFrom_skipped rfl

theorem datumAt_length_lt {d : Datum} (hread : datumAt c = .ok (d, c')) :
    c'.rest.length < c.rest.length := by
  obtain ⟨p, -, hp⟩ := map_ok_iff.mp hread
  cases hp
  exact p.2.2

theorem datumAt_nil (next : c.skipBlanks = ⟨loc, []⟩) :
    datumAt c = .error ⟨loc.line, .missing⟩ := by
  rw [datumAt, readDatum]
  split <;> rename_i hs <;> rw [next] at hs <;> cases hs
  rfl

theorem datumAt_cons (next : c.skipBlanks = ⟨loc, b :: r⟩) :
    datumAt c =
      if b = byte '(' then
        (elementsAt ⟨loc.next b, r⟩).map fun p => (ofElements loc p.1, p.2)
      else if b = byte '\x7b' then
        (entriesAt ⟨loc.next b, r⟩).map fun p => (.map loc p.1.1 p.1.2, p.2)
      else if b = byte '"' then
        (stringAt ⟨loc.next b, r⟩).map fun p => (.atom .string loc p.1, p.2)
      else if startsInteger b r then
        .ok (.atom .integer loc (b :: (takeRun Bytes.isDigit (loc.next b) r).1),
          (takeRun Bytes.isDigit (loc.next b) r).2)
      else if isSymbolStart b then
        .ok (.atom .symbol loc (b :: (takeRun isSymbolByte (loc.next b) r).1),
          (takeRun isSymbolByte (loc.next b) r).2)
      else if (utf8 ")\x7d:,^").contains b then .error ⟨loc.line, .misplaced b⟩
      else .error ⟨loc.line, .strange b⟩ := by
  rw [datumAt, readDatum]
  split <;> rename_i hs <;> rw [next] at hs <;> cases hs
  dsimp only
  split
  · rw [elementsAt]
    cases readElements ⟨loc.next b, r⟩ <;> rfl
  · split
    · rw [entriesAt]
      cases readEntries ⟨loc.next b, r⟩ <;> rfl
    · split
      · rw [stringAt]
        cases readString (loc.next b) r <;> rfl
      · split
        · rfl
        · split
          · rfl
          · split <;> rfl

theorem datumAt_skipBlanks (c : Cursor) : datumAt c.skipBlanks = datumAt c := by
  rcases next : c.skipBlanks with ⟨loc, _ | ⟨b, r⟩⟩
  · have skipped := skipBlanks_skipBlanks c
    rw [next] at skipped
    rw [datumAt_nil skipped, datumAt_nil next]
  · have skipped := skipBlanks_skipBlanks c
    rw [next] at skipped
    rw [datumAt_cons skipped, datumAt_cons next]

theorem entriesAt_length_lt {entries : List Bytes × List Datum}
    (hread : entriesAt c = .ok (entries, c')) : c'.rest.length < c.rest.length := by
  obtain ⟨p, -, hp⟩ := map_ok_iff.mp hread
  cases hp
  exact p.2.2.2

theorem elementsAt_nil (next : c.skipBlanks = ⟨loc, []⟩) :
    elementsAt c = .error ⟨loc.line, .openList⟩ := by
  rw [elementsAt, readElements]
  split <;> rename_i hs <;> rw [next] at hs <;> cases hs
  rfl

theorem elementsAt_close (next : c.skipBlanks = ⟨loc, byte ')' :: r⟩) :
    elementsAt c = .ok ([], ⟨loc.next (byte ')'), r⟩) := by
  rw [elementsAt, readElements]
  split <;> rename_i hs <;> rw [next] at hs <;> cases hs
  rw [if_pos rfl]
  rfl

theorem elementsAt_item (next : c.skipBlanks = ⟨loc, b :: r⟩) (noEnd : b ≠ byte ')')
    (noNote : b ≠ byte '^') :
    elementsAt c = (datumAt c).bind fun p =>
      (elementsAt p.2).map fun q => (.item p.1 :: q.1, q.2) := by
  rw [elementsAt, readElements]
  split <;> rename_i hs <;> rw [next] at hs <;> cases hs
  rw [if_neg noEnd, if_neg noNote, datumAt]
  cases readDatum c with
  | error e => rfl
  | ok p =>
    obtain ⟨d, c₁, h₁⟩ := p
    simp only [Except.map, Except.bind, elementsAt]
    cases readElements c₁ <;> rfl

theorem elementsAt_note (next : c.skipBlanks = ⟨loc, byte '^' :: byte '\x7b' :: r⟩) :
    elementsAt c = (entriesAt ⟨(loc.next (byte '^')).next (byte '\x7b'), r⟩).bind fun p =>
      (elementsAt p.2).map fun q => (.note p.1.1 p.1.2 :: q.1, q.2) := by
  rw [elementsAt, readElements]
  split <;> rename_i hs <;> rw [next] at hs <;> cases hs
  rw [if_neg (by decide), if_pos rfl]
  dsimp only
  rw [if_pos rfl, entriesAt]
  cases readEntries ⟨(loc.next (byte '^')).next (byte '\x7b'), r⟩ with
  | error e => rfl
  | ok p =>
    obtain ⟨ks, vs, c₁, h₁⟩ := p
    simp only [Except.map, Except.bind, elementsAt]
    cases readElements c₁ <;> rfl

theorem elementsAt_bareMark (next : c.skipBlanks = ⟨loc, byte '^' :: r⟩)
    (noMap : r.head? ≠ some (byte '\x7b')) :
    elementsAt c = .error ⟨loc.line, .bareMark (⟨loc, r⟩ : Cursor).found⟩ := by
  rw [elementsAt, readElements]
  split <;> rename_i hs <;> rw [next] at hs <;> cases hs
  rw [if_neg (by decide), if_pos rfl]
  cases r with
  | nil => rfl
  | cons o r =>
    have hother : o ≠ byte '\x7b' := fun h => noMap (congrArg some h)
    dsimp only
    rw [if_neg hother]
    rfl

theorem entriesAt_nil (next : c.skipBlanks = ⟨loc, []⟩) :
    entriesAt c = .error ⟨loc.line, .badKey .endOfInput⟩ := by
  rw [entriesAt, readEntries]
  split <;> rename_i hs <;> rw [next] at hs <;> cases hs
  rfl

theorem entriesAt_close (next : c.skipBlanks = ⟨loc, byte '\x7d' :: r⟩) :
    entriesAt c = .ok (([], []), ⟨loc.next (byte '\x7d'), r⟩) := by
  rw [entriesAt, readEntries]
  split <;> rename_i hs <;> rw [next] at hs <;> cases hs
  rw [if_pos rfl]
  rfl

theorem entriesAt_badKey (next : c.skipBlanks = ⟨loc, b :: r⟩) (noEnd : b ≠ byte '\x7d')
    (noKey : isWordStart b = false) :
    entriesAt c = .error ⟨loc.line, .badKey (.byte b)⟩ := by
  rw [entriesAt, readEntries]
  split <;> rename_i hs <;> rw [next] at hs <;> cases hs
  simp [noEnd, noKey, Except.map]

/-- An entry of a map that starts here and what is behind it. -/
def entryAt (c : Cursor) : Except ReadError ((Bytes × Datum) × Cursor) :=
  let key := takeRun isSymbolByte c.loc c.rest
  let behind := key.2.skipBlanks
  if behind.rest.head? = some (byte ':') then
    (datumAt ⟨behind.loc.next (byte ':'), behind.rest.tail⟩).map fun p => ((key.1, p.1), p.2)
  else .error ⟨behind.loc.line, .noColon behind.found⟩

theorem entryAt_length_lt {p : Bytes × Datum} (hread : entryAt c = .ok (p, c')) :
    c'.rest.length < c.rest.length := by
  rw [entryAt] at hread
  split at hread
  · rename_i colon
    obtain ⟨r, hr⟩ := List.head?_eq_some_iff.mp colon
    have hkey := takeRun_length_le isSymbolByte c.loc c.rest
    have hblanks := (takeRun isSymbolByte c.loc c.rest).2.skipBlanks_length_le
    rw [hr] at hread hblanks
    obtain ⟨q, hdatum, hq⟩ := map_ok_iff.mp hread
    cases hq
    refine Nat.lt_trans (datumAt_length_lt hdatum) ?_
    exact Nat.lt_of_lt_of_le (Nat.lt_succ_self _) (Nat.le_trans hblanks hkey)
  · cases hread

/-- What follows the comma behind an entry, or a closing brace. -/
def separatorAt (c : Cursor) : Except ReadError (Unit × Cursor) :=
  match c.skipBlanks with
  | ⟨loc, []⟩ => .error ⟨loc.line, .noComma .endOfInput⟩
  | ⟨loc, b :: r⟩ =>
    if b = byte ',' then .ok ((), ⟨loc.next b, r⟩)
    else if b = byte '\x7d' then .ok ((), ⟨loc, b :: r⟩)
    else .error ⟨loc.line, .noComma (.byte b)⟩

theorem separatorAt_length_le (hread : separatorAt c = .ok ((), c')) :
    c'.rest.length ≤ c.rest.length := by
  have hblanks := c.skipBlanks_length_le
  unfold separatorAt at hread
  split at hread
  · cases hread
  · rename_i hs
    rw [hs] at hblanks
    split at hread
    · cases hread
      exact Nat.le_of_succ_le hblanks
    · split at hread
      · cases hread
        exact hblanks
      · cases hread

theorem entriesAt_key (next : c.skipBlanks = ⟨loc, b :: r⟩) (starts : isWordStart b = true) :
    entriesAt c = (entryAt ⟨loc, b :: r⟩).bind fun p => (separatorAt p.2).bind fun q =>
      (entriesAt q.2).map fun t => ((p.1.1 :: t.1.1, p.1.2 :: t.1.2), t.2) := by
  have inside : isSymbolByte b = true := by simp [isSymbolByte, starts]
  have hkey : takeRun isSymbolByte loc (b :: r) =
      (b :: (takeRun isSymbolByte (loc.next b) r).1, (takeRun isSymbolByte (loc.next b) r).2) := by
    rw [takeRun, List.takeWhile_cons_of_pos inside, List.dropWhile_cons_of_pos inside]
    rfl
  rw [entriesAt, readEntries]
  split <;> rename_i hs <;> rw [next] at hs <;> cases hs
  rw [if_neg (isWordStart_ne starts), if_pos starts]
  dsimp only
  rw [entryAt, hkey]
  dsimp only
  split
  · rename_i hs₁
    simp only [hs₁]
    rfl
  · rename_i loc₁ b₁ r₁ hs₁
    simp only [hs₁, List.head?_cons, Option.some.injEq, List.tail_cons]
    split
    · rename_i colon
      subst colon
      rw [datumAt]
      split
      · rename_i hfirst
        rw [hfirst]
        rfl
      · rename_i value c₂ h₂ hfirst
        rw [hfirst]
        change _ = (separatorAt c₂).bind _
        unfold separatorAt
        split
        · rename_i hs₂
          simp only [hs₂]
          rfl
        · rename_i loc₂ b₂ r₂ hs₂
          simp only [hs₂]
          split
          · change _ = (entriesAt _).map _
            rw [entriesAt]
            split
            · rename_i hothers
              rw [hothers]
              rfl
            · rename_i hothers
              rw [hothers]
              rfl
          · split
            · rename_i isEnd
              subst isEnd
              have stays : (⟨loc₂, byte '\x7d' :: r₂⟩ : Cursor).skipBlanks = _ :=
                skipBlanks_visible (by decide) (by decide)
              change _ = (entriesAt _).map _
              rw [entriesAt_close stays]
              rfl
            · rfl
    · rfl

/-- Every key of a map has its value. -/
theorem entriesAt_paired {c c' : Cursor} {entries : List Bytes × List Datum}
    (hread : entriesAt c = .ok (entries, c')) : entries.1.length = entries.2.length := by
  rcases next : c.skipBlanks with ⟨loc, _ | ⟨b, r⟩⟩
  · rw [entriesAt_nil next] at hread
    cases hread
  by_cases isEnd : b = byte '\x7d'
  · subst isEnd
    rw [entriesAt_close next] at hread
    cases hread
    rfl
  by_cases starts : isWordStart b = true
  · rw [entriesAt_key next starts] at hread
    obtain ⟨⟨e, c₁⟩, hentry, hread⟩ := bind_ok_iff.mp hread
    obtain ⟨⟨⟨⟩, c₂⟩, hseparator, hread⟩ := bind_ok_iff.mp hread
    obtain ⟨t, hothers, ht⟩ := map_ok_iff.mp hread
    cases ht
    have visible : (b :: r).length ≤ c.rest.length := by
      have hlength := c.skipBlanks_length_le
      rwa [next] at hlength
    have shorter₁ := entryAt_length_lt hentry
    have shorter₂ := separatorAt_length_le hseparator
    exact congrArg (· + 1) (entriesAt_paired hothers)
  · have noKey : isWordStart b = false := by simpa using starts
    rw [entriesAt_badKey next isEnd noKey] at hread
    cases hread
termination_by c.rest.length
decreasing_by
  exact Nat.lt_of_le_of_lt shorter₂ (Nat.lt_of_lt_of_le shorter₁ visible)

end TreeWat.Datum
