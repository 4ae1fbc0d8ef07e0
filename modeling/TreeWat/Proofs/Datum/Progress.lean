import TreeWat.Proofs.Datum.Roundtrip
import TreeWat.Proofs.Datum.Tokens
set_option autoImplicit false

/-!
# Datum: the reader stays in its text and makes progress

Lists, maps and metadata, and from them whole data: by induction on the fuel, as what stands
inside of a datum is shorter than the datum (`readsBelow_datum`).
-/

namespace TreeWat.Datum.Walk

variable {α : Type} {s s' : State} {c c' : Cursor} {b : UInt8} {r : Bytes}

/-! ## Metadata -/

theorem setEntry_eq {keys : List Bytes} {values : List Datum}
    (paired : keys.length = values.length) (key : Bytes) (value : Datum) :
    setEntry key value keys values =
      match keys.findIdx? (· = key) with
      | some j => (keys, values.set j value)
      | none => (keys ++ [key], values ++ [value]) := by
  induction keys generalizing values with
  | nil =>
    obtain rfl := List.eq_nil_of_length_eq_zero paired.symm
    rfl
  | cons k ks ih =>
    obtain ⟨v, vs, rfl⟩ := List.exists_cons_of_length_eq_add_one paired.symm
    rw [setEntry, List.findIdx?_cons]
    by_cases same : k = key
    · simp [same]
    · rw [if_neg same, ih (Nat.succ.inj paired)]
      simp only [same, decide_false]
      cases ks.findIdx? (· = key) <;> rfl

theorem lt_of_findIdx? {p : Bytes → Bool} {keys : List Bytes} {j : Nat}
    (found : keys.findIdx? p = some j) : j < keys.length :=
  (List.findIdx?_eq_some_iff_getElem.mp found).1

/-- An entry is stored without a look outside of the lists, since keys and values are pairs. -/
theorem run_storeNote {values : List Datum} {i : Nat} {key : Bytes} {value : Datum}
    {stored : List Bytes × List Datum} (paired : stored.1.length = stored.2.length)
    (found : values[i]? = some value) (s : State) :
    (storeNote values i key stored).run s = (.ok (setEntry key value stored.1 stored.2), s) := by
  rw [setEntry_eq paired, storeNote]
  cases hindex : stored.1.findIdx? (· = key) with
  | none =>
    change (index values i >>= fun v => pure _ : Walk _).run s = _
    rw [run_bind, run_index found]
    rfl
  | some j =>
    have inside : j < stored.2.length := paired ▸ lt_of_findIdx? hindex
    change (index values i >>= fun v => replace stored.2 j v >>= fun replaced =>
      pure (stored.1, replaced) : Walk _).run s = _
    rw [run_bind, run_index found]
    change (replace stored.2 j value >>= fun replaced => pure (stored.1, replaced) : Walk _).run s
      = _
    rw [replace, if_pos inside]
    rfl

theorem run_mergeFrom {values : List Datum} (keys : List Bytes) (i : Nat)
    {stored : List Bytes × List Datum} (paired : stored.1.length = stored.2.length)
    (pairedFrom : keys.length = (values.drop i).length) (s : State) :
    (mergeFrom values i keys stored).run s = (.ok (setEntries keys (values.drop i) stored), s) := by
  induction keys generalizing i stored with
  | nil =>
    rw [List.eq_nil_of_length_eq_zero pairedFrom.symm]
    rfl
  | cons key keys ih =>
    have inside : i < values.length := by
      rw [List.length_drop, List.length_cons] at pairedFrom
      omega
    rw [List.drop_eq_getElem_cons inside] at pairedFrom ⊢
    have stores : (storeNote values i key stored).run s = _ :=
      run_storeNote paired (List.getElem?_eq_getElem inside) s
    rw [mergeFrom, run_bind, stores]
    exact ih (i + 1) (setEntry_paired paired key _) (Nat.succ.inj pairedFrom)

theorem setEntries_paired {keys : List Bytes} {values : List Datum}
    {stored : List Bytes × List Datum} (paired : stored.1.length = stored.2.length) :
    (setEntries keys values stored).1.length = (setEntries keys values stored).2.length := by
  fun_induction setEntries keys values stored with
  | case1 key keys value values stored ih => exact ih (setEntry_paired paired key value)
  | case2 => exact paired

/-! ## Nested data -/

/-- The reader of data does what it should where less than a limit is left. -/
def ReadsBelow (datum : Walk Datum) (limit : Nat) : Prop :=
  ∀ s : State, s.Inside → s.cursor.rest.length < limit → datum.Follows s (datumAt s.cursor)

section Nested

variable {fuel limit : Nat} {datum : Walk Datum} (reads : ReadsBelow datum limit)
  (enough : limit ≤ fuel)

include reads enough in
theorem follows_entry (inside : s.Inside) (small : s.cursor.rest.length < limit) :
    (entry fuel datum).Follows s (entryAt s.cursor) := by
  have symbols := follows_symbol inside (Nat.lt_of_lt_of_le small enough)
  refine Follows.bind (a := (takeRun isSymbolByte s.loc s.cursor.rest).1) symbols
    fun s₁ moves₁ hcursor₁ => ?_
  have small₁ := Nat.lt_of_le_of_lt moves₁.length_le small
  have enough₁ := Nat.lt_of_lt_of_le small₁ enough
  have behind : (takeRun isSymbolByte s.cursor.loc s.cursor.rest).2.skipBlanks =
      s₁.cursor.skipBlanks := congrArg Cursor.skipBlanks hcursor₁.symm
  rw [entryAt, behind]
  rcases next : s₁.cursor.skipBlanks with ⟨loc, r⟩
  split
  · rename_i colon
    obtain ⟨r, rfl⟩ := List.head?_eq_some_iff.mp colon
    refine (follows_expect moves₁.inside' enough₁ next).bind fun s₂ moves₂ hcursor₂ => ?_
    have datums := reads s₂ moves₂.inside' (Nat.lt_of_le_of_lt moves₂.length_le small₁)
    rw [hcursor₂] at datums
    exact datums.map fun value => (_, value)
  · rename_i noColon
    exact (follows_expect_error moves₁.inside' enough₁ next noColon).stop

include enough in
theorem follows_separator (inside : s.Inside) (small : s.cursor.rest.length < limit) :
    (separator fuel).Follows s (separatorAt s.cursor) := by
  have skips := follows_skipSpace inside (Nat.lt_of_lt_of_le small enough)
  unfold separatorAt
  rcases next : s.cursor.skipBlanks with ⟨loc, _ | ⟨b, r⟩⟩
  · rw [next] at skips
    refine skips.bind_at fun s₁ moves hloc hrest => ?_
    rw [follows_sees_nil hrest, follows_sees_nil hrest]
    exact follows_failFound_nil moves.inside' hloc hrest _
  · rw [next] at skips
    refine skips.bind_at fun s₁ moves hloc hrest => ?_
    rw [follows_sees_cons hrest]
    dsimp only
    split
    · rw [← hloc]
      exact (follows_next hrest).map fun _ => ()
    · rw [follows_sees_cons hrest]
      split
      · exact follows_pure_at moves.inside' hloc hrest _
      · exact follows_failFound_cons moves.inside' hloc hrest _

/-- What is left of a map whose first entries have been read. -/
def entriesFrom (entries : List Bytes × List Datum) (c : Cursor) :
    Except ReadError ((List Bytes × List Datum) × Cursor) :=
  (entriesAt c).map fun p => ((entries.1 ++ p.1.1, entries.2 ++ p.1.2), p.2)

include reads enough in
/-- An entry is read with the comma behind it, which leaves less of the text. -/
theorem turn_table_entry (entries : List Bytes × List Datum) {loc : Location}
    (inside : s.Inside) (small : s.cursor.rest.length < limit)
    (next : s.cursor.skipBlanks = ⟨loc, b :: r⟩) (starts : isWordStart b = true) :
    TurnFollows (tableTurn fuel datum) entriesFrom (fun _ => True) entries s := by
  have follows : (tableTurn fuel datum entries).Follows s
      ((entryAt ⟨loc, b :: r⟩).bind fun p => (separatorAt p.2).map fun q =>
        (.again (entries.1 ++ [p.1.1], entries.2 ++ [p.1.2]), q.2)) := by
    have skips := follows_skipSpace inside (Nat.lt_of_lt_of_le small enough)
    rw [next] at skips
    refine skips.bind fun s₁ moves hcursor => ?_
    have hrest : s₁.cursor.rest = b :: r := congrArg Cursor.rest hcursor
    have small₁ := Nat.lt_of_le_of_lt moves.length_le small
    rw [follows_sees_cons hrest, if_neg (isWordStart_ne starts), follows_peek_cons hrest,
      if_pos starts, ← hcursor]
    refine (follows_entry reads enough moves.inside' small₁).bind_result fun e s₂ _ moves₂ => ?_
    exact (follows_separator enough moves₂.inside'
      (Nat.lt_of_le_of_lt moves₂.length_le small₁)).map fun _ => _
  have split := entriesAt_key next starts
  cases hentry : entryAt ⟨loc, b :: r⟩ with
  | error e =>
    rw [hentry] at follows split
    exact .stops (by rw [entriesFrom, split]; rfl) follows
  | ok p =>
    obtain ⟨⟨key, value⟩, c₁⟩ := p
    have shorter₁ := entryAt_length_lt hentry
    have visible := s.cursor.skipBlanks_length_le
    rw [next] at visible
    rw [hentry] at follows split
    cases hseparator : separatorAt c₁ with
    | error e =>
      simp only [Except.bind, hseparator] at follows split
      exact .stops (by rw [entriesFrom, split]; rfl) follows
    | ok q =>
      obtain ⟨⟨⟩, c₂⟩ := q
      have shorter₂ := separatorAt_length_le hseparator
      simp only [Except.bind, hseparator] at follows split
      refine .goesOn trivial ?_ ?_ follows
      · exact Nat.lt_of_le_of_lt shorter₂ (Nat.lt_of_lt_of_le shorter₁ visible)
      · rw [entriesFrom, split, entriesFrom]
        cases entriesAt c₂ <;> simp [Except.map]

include reads enough in
theorem turn_table (entries : List Bytes × List Datum) (inside : s.Inside)
    (small : s.cursor.rest.length < limit) :
    TurnFollows (tableTurn fuel datum) entriesFrom (fun _ => True) entries s := by
  have skips := follows_skipSpace inside (Nat.lt_of_lt_of_le small enough)
  rcases next : s.cursor.skipBlanks with ⟨loc, _ | ⟨b, r⟩⟩
  · rw [next] at skips
    refine .stops (by rw [entriesFrom, entriesAt_nil next]; rfl) ?_
    refine skips.bind_at fun s₁ moves hloc hrest => ?_
    rw [follows_sees_nil hrest, follows_peek_nil hrest, if_neg (by decide)]
    exact follows_failFound_nil moves.inside' hloc hrest _
  rw [next] at skips
  by_cases isEnd : b = byte '\x7d'
  · subst isEnd
    refine .finishes (a := entries) (c := ⟨loc.next (byte '\x7d'), r⟩) ?_ ?_
    · rw [entriesFrom, entriesAt_close next]
      simp [Except.map]
    · refine skips.bind_at fun s₁ moves hloc hrest => ?_
      rw [follows_sees_cons hrest, if_pos rfl, ← hloc]
      exact (follows_next hrest).map fun _ => _
  by_cases starts : isWordStart b = true
  · exact turn_table_entry reads enough entries inside small next starts
  · have noKey : isWordStart b = false := by simpa using starts
    refine .stops (by rw [entriesFrom, entriesAt_badKey next isEnd noKey]; rfl) ?_
    refine skips.bind_at fun s₁ moves hloc hrest => ?_
    rw [follows_sees_cons hrest, if_neg isEnd, follows_peek_cons hrest, if_neg starts]
    exact follows_failFound_cons moves.inside' hloc hrest _

include reads enough in
theorem follows_table (ahead : s.cursor.rest = byte '\x7b' :: r)
    (small : s.cursor.rest.length ≤ limit) :
    (table fuel datum).Follows s (entriesAt ⟨s.loc.next (byte '\x7b'), r⟩) := by
  refine follows_call ?_ (fun h => nomatch h)
  refine (follows_next ahead).bind fun s₁ moves hcursor => ?_
  have small₁ : s₁.cursor.rest.length < limit := by
    rw [ahead] at small
    rw [hcursor]
    exact small
  have hspec : entriesFrom ([], []) s₁.cursor = entriesAt s₁.cursor := by
    unfold entriesFrom
    cases entriesAt s₁.cursor <;> rfl
  rw [← hcursor, ← hspec]
  exact follows_loop entriesFrom (fun _ => True)
    (fun entries s inside small _ => turn_table reads enough entries inside small) fuel ([], []) s₁
    moves.inside' small₁ trivial (Nat.lt_of_lt_of_le small₁ enough)

/-- The metadata of a list, with the metadata that has been stored before. -/
def notesFrom (stored : List Bytes × List Datum) (es : List Element) : List Bytes × List Datum :=
  es.foldl (fun stored e => match e with
    | .item _ => stored
    | .note ks vs => setEntries ks vs stored) stored

/-- A list whose first elements have been read, with the other ones behind them. -/
def ListSoFar.closed (l : ListSoFar) (es : List Element) : Datum :=
  .list .nowhere (notesFrom l.notes es).1 (notesFrom l.notes es).2 (l.items ++ gatherItems es)

theorem ListSoFar.closed_nil (l : ListSoFar) :
    l.closed [] = .list .nowhere l.notes.1 l.notes.2 l.items :=
  congrArg (Datum.list _ _ _) (List.append_nil l.items)

theorem ListSoFar.closed_item (l : ListSoFar) (d : Datum) (es : List Element) :
    l.closed (.item d :: es) = ({ l with items := l.items ++ [d] } : ListSoFar).closed es :=
  congrArg (Datum.list _ _ _) (List.append_cons l.items d (gatherItems es))

/-- What is left of a list whose first elements have been read. -/
def elementsFrom (l : ListSoFar) (c : Cursor) : Except ReadError (Datum × Cursor) :=
  (elementsAt c).map fun p => (l.closed p.1, p.2)

/-- Keys and values of the metadata are pairs. -/
def ListSoFar.Paired (l : ListSoFar) : Prop :=
  l.notes.1.length = l.notes.2.length

include reads enough in
/-- The entries of a map of metadata are stored. -/
theorem turn_list_note (l : ListSoFar) {loc : Location} (inside : s.Inside)
    (small : s.cursor.rest.length < limit) (paired : l.Paired)
    (next : s.cursor.skipBlanks = ⟨loc, byte '^' :: byte '\x7b' :: r⟩) :
    TurnFollows (listTurn fuel datum) elementsFrom ListSoFar.Paired l s := by
  have noEnd : byte '^' ≠ byte ')' := by decide
  have follows : (listTurn fuel datum l).Follows s
      ((entriesAt ⟨(loc.next (byte '^')).next (byte '\x7b'), r⟩).bind fun p =>
        .ok (.again { l with notes := setEntries p.1.1 p.1.2 l.notes }, p.2)) := by
    have skips := follows_skipSpace inside (Nat.lt_of_lt_of_le small enough)
    rw [next] at skips
    refine skips.bind_at fun s₁ moves₁ hloc₁ hrest₁ => ?_
    rw [follows_done_cons hrest₁, follows_sees_cons hrest₁, if_neg noEnd,
      follows_sees_cons hrest₁, if_pos rfl]
    refine follows_next_bind hrest₁ fun s₂ moves₂ hloc₂ hrest₂ => ?_
    have small₂ : s₂.cursor.rest.length ≤ limit := Nat.le_of_lt
      (Nat.lt_of_le_of_lt (moves₁.trans moves₂).length_le small)
    have tables := follows_table reads enough hrest₂ small₂
    rw [hloc₂, hloc₁] at tables
    rw [follows_sees_cons hrest₂, if_pos rfl]
    refine tables.bind_result fun entries s₃ hentries moves₃ => ?_
    rw [follows_of_tells (run_mergeFrom entries.1 0 paired (entriesAt_paired hentries) s₃)]
    exact follows_pure moves₃.inside' _
  cases hentries : entriesAt ⟨(loc.next (byte '^')).next (byte '\x7b'), r⟩ with
  | error e =>
    rw [hentries] at follows
    exact .stops (by rw [elementsFrom, elementsAt_note next, hentries]; rfl) follows
  | ok p =>
    have shorter := entriesAt_length_lt hentries
    have visible := s.cursor.skipBlanks_length_le
    rw [next] at visible
    rw [hentries] at follows
    refine .goesOn (y := { l with notes := setEntries p.1.1 p.1.2 l.notes })
      (setEntries_paired paired) ?_ ?_ follows
    · exact Nat.lt_trans shorter (Nat.lt_of_succ_lt visible)
    · rw [elementsFrom, elementsAt_note next, hentries]
      exact map_map _ _

include reads enough in
/-- An item is kept behind the ones before it. -/
theorem turn_list_item (l : ListSoFar) {loc : Location} (inside : s.Inside)
    (small : s.cursor.rest.length < limit) (paired : l.Paired)
    (next : s.cursor.skipBlanks = ⟨loc, b :: r⟩) (noEnd : b ≠ byte ')') (noNote : b ≠ byte '^') :
    TurnFollows (listTurn fuel datum) elementsFrom ListSoFar.Paired l s := by
  have follows : (listTurn fuel datum l).Follows s
      ((datumAt s.cursor).map fun p => (.again { l with items := l.items ++ [p.1] }, p.2)) := by
    have skips := follows_skipSpace inside (Nat.lt_of_lt_of_le small enough)
    rw [next] at skips
    refine skips.bind fun s₁ moves hcursor => ?_
    have hrest : s₁.cursor.rest = b :: r := congrArg Cursor.rest hcursor
    rw [follows_done_cons hrest, follows_sees_cons hrest, if_neg noEnd, follows_sees_cons hrest,
      if_neg noNote]
    have items := reads s₁ moves.inside' (Nat.lt_of_le_of_lt moves.length_le small)
    rw [hcursor, ← next, datumAt_skipBlanks] at items
    exact items.map _
  cases hitem : datumAt s.cursor with
  | error e =>
    rw [hitem] at follows
    refine .stops ?_ follows
    rw [elementsFrom, elementsAt_item next noEnd noNote, hitem]
    rfl
  | ok p =>
    rw [hitem] at follows
    refine .goesOn (y := { l with items := l.items ++ [p.1] }) paired (datumAt_length_lt hitem) ?_
      follows
    rw [elementsFrom, elementsAt_item next noEnd noNote, hitem]
    refine (map_map _ _).trans (congrArg (Except.map · (elementsAt p.2)) ?_)
    exact funext fun q => congrArg (·, q.2) (l.closed_item p.1 q.1)

include reads enough in
theorem turn_list (l : ListSoFar) (inside : s.Inside) (small : s.cursor.rest.length < limit)
    (paired : l.Paired) :
    TurnFollows (listTurn fuel datum) elementsFrom ListSoFar.Paired l s := by
  have skips := follows_skipSpace inside (Nat.lt_of_lt_of_le small enough)
  rcases next : s.cursor.skipBlanks with ⟨loc, _ | ⟨b, r⟩⟩
  · rw [next] at skips
    refine .stops (by rw [elementsFrom, elementsAt_nil next]; rfl) ?_
    refine skips.bind_at fun s₁ moves hloc hrest => ?_
    rw [follows_done_nil hrest]
    exact follows_fail moves.inside' hloc _
  rw [next] at skips
  by_cases isEnd : b = byte ')'
  · subst isEnd
    refine .finishes (a := .list .nowhere l.notes.1 l.notes.2 l.items)
      (c := ⟨loc.next (byte ')'), r⟩) ?_ ?_
    · rw [elementsFrom, elementsAt_close next, ← l.closed_nil]
      rfl
    · refine skips.bind_at fun s₁ moves hloc hrest => ?_
      rw [follows_done_cons hrest, follows_sees_cons hrest, if_pos rfl, ← hloc]
      exact (follows_next hrest).map fun _ => _
  by_cases isNote : b = byte '^'
  · subst isNote
    by_cases isMap : r.head? = some (byte '\x7b')
    · obtain ⟨r, rfl⟩ := List.head?_eq_some_iff.mp isMap
      exact turn_list_note reads enough l inside small paired next
    · refine .stops (by rw [elementsFrom, elementsAt_bareMark next isMap]; rfl) ?_
      refine skips.bind_at fun s₁ moves₁ hloc₁ hrest₁ => ?_
      rw [follows_done_cons hrest₁, follows_sees_cons hrest₁, if_neg isEnd,
        follows_sees_cons hrest₁, if_pos rfl]
      refine follows_next_bind hrest₁ fun s₂ moves₂ hloc₂ hrest₂ => ?_
      rw [hloc₁] at hloc₂
      rcases r with _ | ⟨o, r⟩
      · rw [follows_sees_nil hrest₂]
        exact follows_failFound_nil moves₂.inside' hloc₂ hrest₂ _
      · have other : o ≠ byte '\x7b' := fun h => isMap (congrArg some h)
        rw [follows_sees_cons hrest₂, if_neg other]
        exact follows_failFound_cons moves₂.inside' hloc₂ hrest₂ _
  · exact turn_list_item reads enough l inside small paired next isEnd isNote

include reads enough in
theorem follows_list (ahead : s.cursor.rest = byte '(' :: r)
    (small : s.cursor.rest.length ≤ limit) (loc : Location) :
    (list fuel datum).Follows s ((elementsAt ⟨s.loc.next (byte '('), r⟩).map fun p =>
      (located .nowhere (ofElements loc p.1), p.2)) := by
  refine follows_call ?_ (fun h => nomatch h)
  refine (follows_next ahead).bind fun s₁ moves hcursor => ?_
  have small₁ : s₁.cursor.rest.length < limit := by
    rw [ahead] at small
    rw [hcursor]
    exact small
  rw [← hcursor]
  exact follows_loop elementsFrom ListSoFar.Paired
    (fun l s inside small paired => turn_list reads enough l inside small paired)
    fuel ⟨([], []), []⟩ s₁ moves.inside' small₁ rfl (Nat.lt_of_lt_of_le small₁ enough)

theorem startsInteger_eq (b : UInt8) (r : Bytes) :
    startsInteger b r = (Bytes.isDigit b ||
      ((b == byte '+' || b == byte '-') && Bytes.isDigit (r.head?.getD 0))) := by
  have zero : Bytes.isDigit 0 = false := by decide
  cases r <;> simp [startsInteger, zero]

theorem isSymbolByte_of_isSymbolStart (starts : isSymbolStart b = true) :
    isSymbolByte b = true := by
  unfold isSymbolStart at starts
  unfold isSymbolByte
  revert starts
  cases isWordStart b <;> cases isOperatorByte b <;> cases b == byte '-' <;> simp

include reads enough in
theorem follows_datumHere (inside : s.Inside) (small : s.cursor.rest.length ≤ limit)
    (room : limit < fuel) (skipped : s.cursor.skipBlanks = s.cursor) :
    (datumHere fuel datum).Follows s
      ((datumAt s.cursor).map fun p => (located .nowhere p.1, p.2)) := by
  refine follows_call ?_ (fun h => nomatch h)
  rcases ahead : s.cursor.rest with _ | ⟨b, r⟩
  · have next : s.cursor.skipBlanks = ⟨s.loc, []⟩ := skipped.trans (congrArg (Cursor.mk _) ahead)
    rw [datumAt_nil next, follows_peek_nil ahead, follows_of_tells (run_peekAt 1 s),
      follows_done_nil ahead]
    exact follows_fail inside rfl _
  have next : s.cursor.skipBlanks = ⟨s.loc, b :: r⟩ :=
    skipped.trans (congrArg (Cursor.mk _) ahead)
  have enough' := Nat.lt_of_le_of_lt small room
  rw [datumAt_cons next, follows_peek_cons ahead, follows_peekAt_one ahead,
    follows_done_cons ahead, ← startsInteger_eq]
  by_cases isList : b = byte '('
  · subst isList
    rw [if_pos rfl, if_pos rfl]
    rw [map_map]
    exact follows_list reads enough ahead small s.loc
  rw [if_neg isList, if_neg isList]
  by_cases isTable : b = byte '\x7b'
  · subst isTable
    rw [if_pos rfl, if_pos rfl, map_map]
    exact (follows_table reads enough ahead small).map fun entries =>
      Datum.map .nowhere entries.1 entries.2
  rw [if_neg isTable, if_neg isTable]
  by_cases isString : b = byte '"'
  · subst isString
    rw [if_pos rfl, if_pos rfl, map_map]
    exact (follows_str ahead enough').map fun text => Datum.atom .string .nowhere text
  rw [if_neg isString, if_neg isString]
  by_cases isInteger : startsInteger b r = true
  · rw [if_pos isInteger, if_pos isInteger]
    exact (follows_integer inside ahead enough' isInteger).map fun text =>
      Datum.atom .integer .nowhere text
  rw [if_neg isInteger, if_neg isInteger]
  by_cases isSymbol : isSymbolStart b = true
  · rw [if_pos isSymbol, if_pos isSymbol]
    have symbols := follows_symbol inside enough'
    rw [ahead, takeRun_cons (isSymbolByte_of_isSymbolStart isSymbol)] at symbols
    exact symbols.map fun text => Datum.atom .symbol .nowhere text
  rw [if_neg isSymbol, if_neg isSymbol]
  split
  · exact follows_fail inside rfl _
  · exact follows_fail inside rfl _

end Nested

/-- The location that a datum starts at is set when it has been read. -/
theorem located_of_datumAt {d : Datum} (hread : datumAt c = .ok (d, c')) :
    located c.skipBlanks.loc (located .nowhere d) = d := by
  rcases next : c.skipBlanks with ⟨loc, _ | ⟨b, r⟩⟩
  · rw [datumAt_nil next] at hread
    cases hread
  · rw [datumAt_cons next] at hread
    split at hread
    · obtain ⟨p, -, hp⟩ := map_ok_iff.mp hread
      cases hp
      rfl
    split at hread
    · obtain ⟨p, -, hp⟩ := map_ok_iff.mp hread
      cases hp
      rfl
    split at hread
    · obtain ⟨p, -, hp⟩ := map_ok_iff.mp hread
      cases hp
      rfl
    split at hread
    · cases hread
      rfl
    split at hread
    · cases hread
      rfl
    split at hread <;> cases hread

/-- Fuel for what is left of the text is enough to read a datum.  By induction on the fuel: what
stands inside of a datum is shorter than the datum. -/
theorem readsBelow_datum (fuel : Nat) : (datum fuel).ReadsBelow fuel := by
  induction fuel with
  | zero => exact fun s _ small => absurd small (Nat.not_lt_zero _)
  | succ fuel ih =>
    intro s inside small
    refine follows_call ?_ fun _ d c hread => datumAt_length_lt hread
    refine (follows_skipSpace inside small).bind fun s₁ moves hcursor => follows_get.mpr ?_
    have small₁ : s₁.cursor.rest.length ≤ fuel :=
      Nat.le_of_lt_succ (Nat.lt_of_le_of_lt moves.length_le small)
    have skipped : s₁.cursor.skipBlanks = s₁.cursor := by
      rw [hcursor, skipBlanks_skipBlanks]
    have here := follows_datumHere ih (Nat.le_succ fuel) moves.inside' small₁ (Nat.lt_succ_self _)
      skipped
    have hresult : ((datumAt s₁.cursor).map fun p => (located s₁.loc (located .nowhere p.1), p.2)) =
        datumAt s.cursor := by
      have hloc : s₁.loc = s.cursor.skipBlanks.loc := congrArg Cursor.loc hcursor
      rw [hloc, hcursor, datumAt_skipBlanks]
      cases hread : datumAt s.cursor with
      | error e => rfl
      | ok p => exact congrArg (fun d => Except.ok (d, p.2)) (located_of_datumAt hread)
    have located := here.map (Walk.located s₁.loc)
    rwa [map_map, hresult] at located

/-! ## Whole texts -/

/-- A text that holds exactly one datum, and its end. -/
def documentAt (c : Cursor) : Except ReadError (Datum × Cursor) :=
  (datumAt c).bind fun p =>
    match p.2.skipBlanks with
    | ⟨loc, []⟩ => .ok (p.1, ⟨loc, []⟩)
    | ⟨loc, b :: _⟩ => .error ⟨loc.line, .trailing (.byte b)⟩

theorem read_eq_documentAt (text : Bytes) :
    read text = (documentAt ⟨.start, text⟩).map Prod.fst := by
  unfold read documentAt datumAt
  cases readDatum ⟨.start, text⟩ with
  | error e => rfl
  | ok p =>
    obtain ⟨d, c, h⟩ := p
    simp only [Except.map, Except.bind]
    rcases c.skipBlanks with ⟨loc, _ | ⟨b, r⟩⟩ <;> rfl

theorem follows_document {fuel : Nat} (inside : s.Inside) (enough : s.cursor.rest.length < fuel) :
    (document fuel).Follows s (documentAt s.cursor) := by
  refine (readsBelow_datum fuel s inside enough).bind_result fun d s₁ _ moves => ?_
  have skips := follows_skipSpace moves.inside' (Nat.lt_of_le_of_lt moves.length_le enough)
  rcases next : s₁.cursor.skipBlanks with ⟨loc, _ | ⟨b, r⟩⟩
  · rw [next] at skips
    refine skips.bind_at fun s₂ moves₂ hloc hrest => ?_
    rw [follows_done_nil hrest]
    exact follows_pure_at moves₂.inside' hloc hrest _
  · rw [next] at skips
    refine skips.bind_at fun s₂ moves₂ hloc hrest => ?_
    rw [follows_done_cons hrest]
    exact follows_failFound_cons moves₂.inside' hloc hrest _

/-- A whole text is read as the reader of the notation reads it. -/
theorem run_document {fuel : Nat} {text : Bytes} (enough : text.length < fuel) :
    ∃ s', (document fuel).run (.start text) = ((read text).mapError .error, s') ∧
      Moves (.start text) s' := by
  obtain ⟨s', moves, ends⟩ := follows_document (s := .start text) (Nat.zero_le _) enough
  refine ⟨s', ?_, moves⟩
  have hcursor : (State.start text).cursor = ⟨.start, text⟩ := rfl
  rw [hcursor] at ends
  rw [read_eq_documentAt]
  cases hdocument : documentAt ⟨.start, text⟩ with
  | error e =>
    rw [hdocument] at ends
    exact ends
  | ok p =>
    rw [hdocument] at ends
    exact ends.1

end TreeWat.Datum.Walk
