import TreeWat.Proofs.Datum.Steps
set_option autoImplicit false

/-!
# Datum: walks over blanks and tokens

Blanks and comments, symbols, integers, marks and strings: each routine follows the reader
where the fuel exceeds what is left of the text.
-/

namespace TreeWat.Datum.Walk

variable {α : Type} {s s' : State} {c c' : Cursor} {b : UInt8} {r : Bytes}

/-! ## Tokens -/

theorem takeRun_cons {p : UInt8 → Bool} (more : p b = true) (loc : Location) (r : Bytes) :
    takeRun p loc (b :: r) = (b :: (takeRun p (loc.next b) r).1, (takeRun p (loc.next b) r).2) := by
  rw [takeRun, takeRun, List.takeWhile_cons_of_pos more, List.dropWhile_cons_of_pos more]
  rfl

theorem takeRun_stop {p : UInt8 → Bool} {s : Bytes} (stop : s.head?.any p = false)
    (loc : Location) : takeRun p loc s = ([], ⟨loc, s⟩) := by
  cases s with
  | nil => rfl
  | cons b r =>
    have hb : ¬ p b = true := by simpa using stop
    rw [takeRun, List.takeWhile_cons_of_neg hb, List.dropWhile_cons_of_neg hb]
    rfl

theorem exists_cons_of_any {p : UInt8 → Bool} {s : Bytes} (hany : s.head?.any p = true) :
    ∃ b r, s = b :: r ∧ p b = true := by
  cases s with
  | nil => cases hany
  | cons b r => exact ⟨b, r, rfl, by simpa using hany⟩

/-- Bytes are taken as long as they satisfy what is tested. -/
theorem follows_advanceWhile {l : Loop} {test : Walk Bool} {p : UInt8 → Bool} {fuel : Nat}
    (tests : ∀ s, test.run s = (.ok (s.cursor.rest.head?.any p), s)) (inside : s.Inside)
    (enough : s.cursor.rest.length < fuel) :
    (advanceWhile l test fuel).Follows s (.ok ((), (takeRun p s.loc s.cursor.rest).2)) := by
  refine follows_loop (fun _ c => .ok ((), (takeRun p c.loc c.rest).2)) (fun _ => True) ?_ fuel ()
    s inside enough trivial enough
  intro _ s inside _ _
  cases hany : s.cursor.rest.head?.any p with
  | false =>
    refine .finishes (a := ()) (c := s.cursor) (by rw [takeRun_stop hany]) ?_
    rw [follows_of_tells (tests s), hany]
    exact follows_pure inside _
  | true =>
    obtain ⟨b, r, ahead, more⟩ := exists_cons_of_any hany
    refine .goesOn (y := ()) (c := ⟨s.loc.next b, r⟩) trivial (by simp [ahead]) ?_ ?_
    · rw [ahead, takeRun_cons more]
      rfl
    · rw [follows_of_tells (tests s), hany]
      exact (follows_next ahead).map fun _ => Turn.again ()

theorem run_inComment (s : State) :
    inComment.run s = (.ok (s.cursor.rest.head?.any (· != byte '\n')), s) := by
  have hlooks : inComment.run s =
      (.ok (!s.cursor.rest.isEmpty && !(s.cursor.rest.head? == some (byte '\n'))), s) := by
    rw [inComment, run_bind, run_done]
    change (sees (byte '\n') >>= fun atBreak => pure _ : Walk Bool).run s = _
    rw [run_bind, run_sees]
    rfl
  rw [hlooks]
  cases s.cursor.rest <;> simp [bne]

theorem run_inSymbol (s : State) :
    inSymbol.run s = (.ok (s.cursor.rest.head?.any isSymbolByte), s) := by
  have hlooks : inSymbol.run s =
      (.ok (!s.cursor.rest.isEmpty && isSymbolByte (s.cursor.rest.head?.getD 0)), s) := by
    rw [inSymbol, run_bind, run_done]
    change (peek >>= fun b => pure _ : Walk Bool).run s = _
    rw [run_bind, run_peek]
    rfl
  rw [hlooks]
  cases s.cursor.rest <;> simp

/-- The zero byte that stands for the end is no digit. -/
theorem run_inDigits (s : State) :
    inDigits.run s = (.ok (s.cursor.rest.head?.any Bytes.isDigit), s) := by
  have hlooks : inDigits.run s = (.ok (Bytes.isDigit (s.cursor.rest.head?.getD 0)), s) := by
    rw [inDigits, run_bind, run_peek]
    rfl
  have zero : Bytes.isDigit 0 = false := by decide
  rw [hlooks]
  cases s.cursor.rest <;> simp [zero]

/-- A comment ends in front of its line break. -/
theorem skipBlanksFrom_comment_eq (loc : Location) (s : Bytes) :
    skipBlanksFrom true loc s = (takeRun (· != byte '\n') loc s).2.skipBlanks := by
  induction s generalizing loc with
  | nil => rfl
  | cons b r ih =>
    by_cases hb : b = byte '\n'
    · subst hb
      rw [takeRun_stop (by simp), skipBlanks_blank (by decide), skipBlanksFrom, if_pos rfl]
      rfl
    · have more : (b != byte '\n') = true := by simpa using hb
      rw [takeRun_cons (p := (· != byte '\n')) more, skipBlanksFrom, if_pos rfl, more]
      exact ih _

theorem skipBlanks_comment (loc : Location) (r : Bytes) :
    (⟨loc, byte ';' :: r⟩ : Cursor).skipBlanks =
      (takeRun (· != byte '\n') loc (byte ';' :: r)).2.skipBlanks := by
  rw [takeRun_cons (by decide), ← skipBlanksFrom_comment_eq]
  rfl

theorem follows_skipSpace {fuel : Nat} (inside : s.Inside)
    (enough : s.cursor.rest.length < fuel) :
    (skipSpace fuel).Follows s (.ok ((), s.cursor.skipBlanks)) := by
  refine follows_call ?_ (fun h => nomatch h)
  refine follows_loop (fun _ c => .ok ((), c.skipBlanks)) (fun _ => True) ?_ fuel () s inside
    enough trivial enough
  intro _ s inside small _
  rcases ahead : s.cursor.rest with _ | ⟨b, r⟩
  · have hcursor : s.cursor = ⟨s.loc, []⟩ := congrArg (Cursor.mk _) ahead
    refine .finishes (a := ()) (c := s.cursor) (by rw [hcursor]; rfl) ?_
    rw [skipTurn, follows_done_nil ahead]
    exact follows_pure inside _
  · have hcursor : s.cursor = ⟨s.loc, b :: r⟩ := congrArg (Cursor.mk _) ahead
    by_cases comment : b = byte ';'
    · subst comment
      refine .goesOn (y := ()) (c := (takeRun (· != byte '\n') s.loc (byte ';' :: r)).2) trivial
        ?_ (by rw [hcursor, skipBlanks_comment]) ?_
      · rw [ahead, takeRun_cons (by decide)]
        exact Nat.lt_succ_of_le (takeRun_length_le _ _ _)
      · rw [skipTurn, follows_done_cons ahead, follows_peek_cons ahead, if_pos rfl]
        have skips := follows_advanceWhile (l := .comment) run_inComment inside small
        rw [ahead] at skips
        exact skips.map fun _ => Turn.again ()
    · by_cases blank : isBlank b = true
      · refine .goesOn (y := ()) (c := ⟨s.loc.next b, r⟩) trivial (by simp [ahead])
          (by rw [hcursor, skipBlanks_blank blank]) ?_
        rw [skipTurn, follows_done_cons ahead, follows_peek_cons ahead, if_neg comment,
          if_pos blank]
        exact (follows_next ahead).map fun _ => Turn.again ()
      · have visible : isBlank b = false := by simpa using blank
        refine .finishes (a := ()) (c := s.cursor)
          (by rw [hcursor, skipBlanks_visible visible comment]) ?_
        rw [skipTurn, follows_done_cons ahead, follows_peek_cons ahead, if_neg comment,
          if_neg blank]
        exact follows_pure inside _

/-- A slice from a position that the walk has come from is what the walk has taken since. -/
theorem follows_slice {taken : Bytes} (moves : Moves s s')
    (split : s.cursor.rest = taken ++ s'.cursor.rest) :
    (slice s.pos).Follows s' (.ok (taken, s'.cursor)) := by
  have hlength : taken.length = s'.pos - s.pos := by
    have hrest := congrArg List.length split
    have := moves.forward
    have := moves.inside
    rw [List.length_append, State.length_cursor, State.length_cursor, moves.text] at hrest
    omega
  have htaken : (s'.text.take s'.pos).drop s.pos = taken := by
    rw [List.drop_take, moves.text, ← hlength]
    exact (congrArg (List.take _) split).trans List.take_left
  have hslice : (slice s.pos).run s' = (.ok taken, s') := by
    have hget : (slice s.pos).run s' = (if s.pos ≤ s'.pos ∧ s'.pos ≤ s'.text.length then
        pure ((s'.text.take s'.pos).drop s.pos) else throw .panic : Walk Bytes).run s' := rfl
    rw [hget, if_pos ⟨moves.forward, moves.inside'⟩, htaken]
    rfl
  exact ⟨s', .refl moves.inside', hslice, rfl⟩

theorem takeRun_append_rest (p : UInt8 → Bool) (loc : Location) (s : Bytes) :
    (takeRun p loc s).1 ++ (takeRun p loc s).2.rest = s :=
  List.takeWhile_append_dropWhile

theorem follows_symbol {fuel : Nat} (inside : s.Inside) (enough : s.cursor.rest.length < fuel) :
    (symbol fuel).Follows s (.ok (takeRun isSymbolByte s.loc s.cursor.rest)) := by
  refine follows_call (follows_get.mpr ?_) (fun h => nomatch h)
  refine (follows_advanceWhile run_inSymbol inside enough).bind fun s' moves hcursor => ?_
  rw [← Prod.eta (takeRun isSymbolByte s.loc s.cursor.rest), ← hcursor]
  refine follows_slice moves ?_
  rw [hcursor, takeRun_append_rest]

theorem follows_sign_plain (inside : s.Inside) (ahead : s.cursor.rest = b :: r)
    (noPlus : b ≠ byte '+') (noMinus : b ≠ byte '-') :
    sign.Follows s (.ok ((), s.cursor)) := by
  rw [sign, follows_of_tells (run_sees _ s), follows_of_tells (run_sees _ s), ahead]
  rw [if_neg (by simp [noPlus, noMinus])]
  exact follows_pure inside _

theorem follows_sign (ahead : s.cursor.rest = b :: r) (signed : b = byte '+' ∨ b = byte '-') :
    sign.Follows s (.ok ((), ⟨s.loc.next b, r⟩)) := by
  rw [sign, follows_of_tells (run_sees _ s), follows_of_tells (run_sees _ s), ahead]
  rw [if_pos (by simpa using signed)]
  exact (follows_next ahead).map fun _ => ()

theorem follows_integer {fuel : Nat} (inside : s.Inside) (ahead : s.cursor.rest = b :: r)
    (enough : s.cursor.rest.length < fuel) (starts : startsInteger b r = true) :
    (integer fuel).Follows s (.ok (b :: (takeRun Bytes.isDigit (s.loc.next b) r).1,
      (takeRun Bytes.isDigit (s.loc.next b) r).2)) := by
  refine follows_call (follows_get.mpr ?_) (fun h => nomatch h)
  -- A sign is taken on its own, a digit with the digits behind it.
  have signs : ∃ c, sign.Follows s (.ok ((), c)) ∧
      (takeRun Bytes.isDigit c.loc c.rest).2 = (takeRun Bytes.isDigit (s.loc.next b) r).2 ∧
      c.rest.length ≤ s.cursor.rest.length := by
    by_cases signed : b = byte '+' ∨ b = byte '-'
    · exact ⟨_, follows_sign ahead signed, rfl, by simp [ahead]⟩
    · obtain ⟨noPlus, noMinus⟩ := not_or.mp signed
      have digit : Bytes.isDigit b = true := by
        simpa [startsInteger, noPlus, noMinus] using starts
      refine ⟨_, follows_sign_plain inside ahead noPlus noMinus, ?_, Nat.le_refl _⟩
      rw [ahead, takeRun_cons digit]
      rfl
  obtain ⟨c, follows, same, short⟩ := signs
  refine follows.bind fun s₁ moves₁ hcursor₁ => ?_
  subst hcursor₁
  refine (follows_advanceWhile run_inDigits moves₁.inside'
    (Nat.lt_of_le_of_lt short enough)).bind fun s' moves hcursor => ?_
  have hcursor' : s'.cursor = (takeRun Bytes.isDigit (s.loc.next b) r).2 := hcursor.trans same
  rw [← hcursor']
  refine follows_slice (moves₁.trans moves) ?_
  rw [hcursor', List.cons_append, takeRun_append_rest, ahead]

theorem follows_expect {fuel : Nat} {loc : Location} {cause : Found → ReadCause}
    (inside : s.Inside) (enough : s.cursor.rest.length < fuel)
    (next : s.cursor.skipBlanks = ⟨loc, b :: r⟩) :
    (expect fuel b cause).Follows s (.ok ((), ⟨loc.next b, r⟩)) := by
  refine follows_call ?_ (fun h => nomatch h)
  refine (follows_skipSpace inside enough).bind fun s₁ moves₁ hcursor₁ => ?_
  obtain ⟨rfl, ahead⟩ : s₁.loc = loc ∧ s₁.cursor.rest = b :: r := by
    rw [next] at hcursor₁
    exact ⟨congrArg Cursor.loc hcursor₁, congrArg Cursor.rest hcursor₁⟩
  rw [follows_sees_cons ahead, if_pos rfl]
  exact (follows_next ahead).map fun _ => ()

theorem follows_expect_error {fuel : Nat} {loc : Location} {cause : Found → ReadCause}
    (inside : s.Inside) (enough : s.cursor.rest.length < fuel)
    (next : s.cursor.skipBlanks = ⟨loc, r⟩) (other : r.head? ≠ some b) :
    (expect fuel b cause).Follows s
      (.error ⟨loc.line, cause (⟨loc, r⟩ : Cursor).found⟩) := by
  refine follows_call ?_ (fun h => nomatch h)
  refine (follows_skipSpace inside enough).bind fun s₁ moves₁ hcursor₁ => ?_
  rw [next] at hcursor₁
  obtain rfl : s₁.loc = loc := congrArg Cursor.loc hcursor₁
  have unseen : (s₁.cursor.rest.head? == some b) = false := by simpa [hcursor₁] using other
  rw [follows_of_tells (run_sees b s₁), unseen, if_neg Bool.false_ne_true, ← hcursor₁]
  exact follows_failFound moves₁.inside' _

/-! ## Strings -/

theorem stringAt_quote (loc : Location) (r : Bytes) :
    stringAt ⟨loc, byte '"' :: r⟩ = .ok ([], ⟨loc.next (byte '"'), r⟩) := by
  cases r <;> simp [stringAt, readString, Except.map]

theorem stringAt_backslash_nil (loc : Location) :
    stringAt ⟨loc, [byte '\\']⟩ = .error ⟨(loc.next (byte '\\')).line, .openString⟩ := by
  simp +decide [stringAt, readString, Except.map]

theorem stringAt_escape {e : UInt8} (loc : Location) (r : Bytes)
    (escapable : e = byte '"' ∨ e = byte '\\') :
    stringAt ⟨loc, byte '\\' :: e :: r⟩ =
      (stringAt ⟨(loc.next (byte '\\')).next e, r⟩).map fun p => (e :: p.1, p.2) := by
  simp +decide only [stringAt, readString, escapable, if_true, if_false]
  cases readString ((loc.next (byte '\\')).next e) r <;> rfl

theorem stringAt_badEscape {e : UInt8} (loc : Location) (r : Bytes)
    (bad : ¬ (e = byte '"' ∨ e = byte '\\')) :
    stringAt ⟨loc, byte '\\' :: e :: r⟩ =
      .error ⟨((loc.next (byte '\\')).next e).line, .badEscape e⟩ := by
  simp +decide only [stringAt, readString, bad, if_true, if_false]
  rfl

theorem stringAt_plain (loc : Location) (r : Bytes) (noQuote : b ≠ byte '"')
    (noEscape : b ≠ byte '\\') :
    stringAt ⟨loc, b :: r⟩ = (stringAt ⟨loc.next b, r⟩).map fun p => (b :: p.1, p.2) := by
  cases r with
  | nil => simp [stringAt, readString, noQuote, Except.map]
  | cons e r =>
    simp only [stringAt, readString, noQuote, noEscape, if_false]
    cases readString (loc.next b) (e :: r) <;> rfl

/-- What is left of a string whose first bytes have been read. -/
def stringFrom (text : Bytes) (c : Cursor) : Except ReadError (Bytes × Cursor) :=
  (stringAt c).map fun p => (text ++ p.1, p.2)

theorem stringFrom_nil (c : Cursor) : stringFrom [] c = stringAt c := by
  unfold stringFrom
  cases stringAt c <;> rfl

theorem stringFrom_concat {text : Bytes} {c₁ : Cursor}
    (first : stringAt c = (stringAt c₁).map fun p => (b :: p.1, p.2)) :
    stringFrom text c = stringFrom (text ++ [b]) c₁ := by
  unfold stringFrom
  rw [first]
  cases stringAt c₁ <;> simp [Except.map]

/-- A backslash is taken with the byte behind it. -/
theorem turn_str_escape (text : Bytes) (ahead : s.cursor.rest = byte '\\' :: r) :
    TurnFollows strTurn stringFrom (fun _ => True) text s := by
  have hcursor : s.cursor = ⟨s.loc, byte '\\' :: r⟩ := congrArg (Cursor.mk _) ahead
  have noQuote : byte '\\' ≠ byte '"' := by decide
  rcases r with _ | ⟨e, r⟩
  · refine .stops (by rw [hcursor, stringFrom, stringAt_backslash_nil]; rfl) ?_
    rw [strTurn, follows_done_cons ahead]
    refine follows_next_bind ahead fun s₁ moves hloc hrest => ?_
    rw [if_neg noQuote, if_pos rfl, follows_done_nil hrest]
    exact follows_fail moves.inside' hloc _
  by_cases escapable : e = byte '"' ∨ e = byte '\\'
  · refine .goesOn (y := text ++ [e]) (c := ⟨(s.loc.next (byte '\\')).next e, r⟩) trivial
      (by rw [ahead]; exact Nat.lt_of_succ_lt (Nat.lt_succ_self _)) ?_ ?_
    · rw [hcursor]
      exact stringFrom_concat (stringAt_escape s.loc r escapable)
    · rw [strTurn, follows_done_cons ahead]
      refine follows_next_bind ahead fun s₁ moves₁ hloc₁ hrest₁ => ?_
      rw [if_neg noQuote, if_pos rfl, follows_done_cons hrest₁]
      refine follows_next_bind hrest₁ fun s₂ moves₂ hloc₂ hrest₂ => ?_
      rw [if_pos escapable]
      exact follows_pure_at moves₂.inside' (by rw [hloc₂, hloc₁]) hrest₂ _
  · refine .stops (by rw [hcursor, stringFrom, stringAt_badEscape s.loc r escapable]; rfl) ?_
    rw [strTurn, follows_done_cons ahead]
    refine follows_next_bind ahead fun s₁ moves₁ hloc₁ hrest₁ => ?_
    rw [if_neg noQuote, if_pos rfl, follows_done_cons hrest₁]
    refine follows_next_bind hrest₁ fun s₂ moves₂ hloc₂ hrest₂ => ?_
    rw [if_neg escapable]
    exact follows_fail moves₂.inside' (by rw [hloc₂, hloc₁]) _

theorem turn_str (text : Bytes) (inside : s.Inside) :
    TurnFollows strTurn stringFrom (fun _ => True) text s := by
  rcases ahead : s.cursor.rest with _ | ⟨b, r⟩
  · have hcursor : s.cursor = ⟨s.loc, []⟩ := congrArg (Cursor.mk _) ahead
    refine .stops (by rw [hcursor]; rfl) ?_
    rw [strTurn, follows_done_nil ahead]
    exact follows_fail inside rfl _
  have hcursor : s.cursor = ⟨s.loc, b :: r⟩ := congrArg (Cursor.mk _) ahead
  by_cases quote : b = byte '"'
  · subst quote
    refine .finishes (a := text) (c := ⟨s.loc.next (byte '"'), r⟩) ?_ ?_
    · rw [hcursor, stringFrom, stringAt_quote]
      exact congrArg (fun t => Except.ok (t, _)) (List.append_nil text)
    · rw [strTurn, follows_done_cons ahead]
      refine follows_next_bind ahead fun s₁ moves hloc hrest => ?_
      rw [if_pos rfl]
      exact follows_pure_at moves.inside' hloc hrest _
  by_cases escape : b = byte '\\'
  · subst escape
    exact turn_str_escape text ahead
  · refine .goesOn (y := text ++ [b]) (c := ⟨s.loc.next b, r⟩) trivial
      (by rw [ahead]; exact Nat.lt_succ_self _) ?_ ?_
    · rw [hcursor]
      exact stringFrom_concat (stringAt_plain s.loc r quote escape)
    · rw [strTurn, follows_done_cons ahead]
      refine follows_next_bind ahead fun s₁ moves hloc hrest => ?_
      rw [if_neg quote, if_neg escape]
      exact follows_pure_at moves.inside' hloc hrest _

theorem follows_str {fuel : Nat} (ahead : s.cursor.rest = byte '"' :: r)
    (enough : s.cursor.rest.length < fuel) :
    (str fuel).Follows s (stringAt ⟨s.loc.next (byte '"'), r⟩) := by
  refine follows_call ?_ (fun h => nomatch h)
  refine (follows_next ahead).bind fun s₁ moves hcursor => ?_
  have short : s₁.cursor.rest.length < fuel := by
    rw [hcursor]
    rw [ahead] at enough
    exact Nat.lt_of_succ_lt enough
  rw [← hcursor, ← stringFrom_nil]
  exact follows_loop stringFrom (fun _ => True)
    (fun text s inside _ _ => turn_str text inside) fuel [] s₁ moves.inside' short trivial short

end TreeWat.Datum.Walk
