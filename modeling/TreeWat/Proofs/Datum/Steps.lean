import TreeWat.Proofs.Datum.Equations
import TreeWat.Proofs.Datum.Walk
set_option autoImplicit false

/-!
# Datum: rules for walks

A walk in a text moves forward in it, and what it writes down is sound (`Moves`).  A walk
follows the reader if it moves and ends with the same result and the same input left
(`Follows`).  The rules take a walk apart: looks ahead leave the state alone, a byte may be
taken where there is one, a call writes down where it came back, and a loop does what is
specified if each of its turns does (`follows_loop`).  A turn after which the loop goes on has
to leave less of the text, which is why fuel for what is left is enough.
-/

namespace TreeWat.Datum

/-! ## Moves -/

/-- What an event says about a text of the given length: bytes are taken in front of its end,
calls and turns do not go back or behind its end, and a turn after which the loop goes on, and
a datum that is read, are not empty. -/
def Event.Sound (length : Nat) : Event → Prop
  | .next pos => pos < length
  | .call routine start stop succeeded =>
    start ≤ stop ∧ stop ≤ length ∧ (routine = .datum → succeeded = true → start < stop)
  | .turn _ start stop => start < stop ∧ stop ≤ length

instance (length : Nat) : (e : Event) → Decidable (e.Sound length)
  | .next _ => inferInstanceAs (Decidable (_ < _))
  | .call _ _ _ _ => inferInstanceAs (Decidable (_ ∧ _ ∧ (_ → _ → _)))
  | .turn _ _ _ => inferInstanceAs (Decidable (_ ∧ _))

namespace State

/-- The walk is in its text or at the end of it. -/
def Inside (s : State) : Prop :=
  s.pos ≤ s.text.length

instance (s : State) : Decidable s.Inside :=
  inferInstanceAs (Decidable (_ ≤ _))

/-- What is left of the text, for the reader that takes it off bit by bit. -/
def cursor (s : State) : Cursor :=
  ⟨s.loc, s.text.drop s.pos⟩

theorem length_cursor (s : State) : s.cursor.rest.length = s.text.length - s.pos :=
  List.length_drop

end State

/-- A walk has gone on in its text, and everything that has been written down is sound. -/
structure Moves (s s' : State) : Prop where
  text : s'.text = s.text
  forward : s.pos ≤ s'.pos
  inside : s'.pos ≤ s.text.length
  traced : ∃ events, s'.trace = s.trace ++ events ∧ ∀ e ∈ events, e.Sound s.text.length

namespace Moves

variable {s s₁ s' : State}

theorem inside' (moves : Moves s s') : s'.Inside := by
  rw [State.Inside, moves.text]
  exact moves.inside

theorem refl (inside : s.Inside) : Moves s s :=
  ⟨rfl, Nat.le_refl _, inside, [], by simp⟩

theorem trans (first : Moves s s₁) (second : Moves s₁ s') : Moves s s' := by
  obtain ⟨events, htrace, sound⟩ := first.traced
  obtain ⟨events', htrace', sound'⟩ := second.traced
  rw [first.text] at sound'
  refine ⟨second.text.trans first.text, Nat.le_trans first.forward second.forward,
    first.text ▸ second.inside, events ++ events', ?_, ?_⟩
  · rw [htrace', htrace, List.append_assoc]
  · intro e he
    exact (List.mem_append.mp he).elim (sound e) (sound' e)

/-- A sound event may be written down. -/
theorem record {e : Event} (moves : Moves s s') (sound : e.Sound s.text.length) :
    Moves s { s' with trace := s'.trace ++ [e] } := by
  obtain ⟨events, htrace, sounds⟩ := moves.traced
  refine ⟨moves.text, moves.forward, moves.inside, events ++ [e], ?_, ?_⟩
  · exact (congrArg (· ++ [e]) htrace).trans (List.append_assoc _ _ _)
  · intro e' he'
    rcases List.mem_append.mp he' with he' | he'
    · exact sounds e' he'
    · exact List.mem_singleton.mp he' ▸ sound

theorem length_le (moves : Moves s s') : s'.cursor.rest.length ≤ s.cursor.rest.length := by
  have := moves.forward
  rw [State.length_cursor, State.length_cursor, moves.text]
  omega

/-- Less is left exactly if the position is a later one. -/
theorem length_lt_iff (moves : Moves s s') :
    s'.cursor.rest.length < s.cursor.rest.length ↔ s.pos < s'.pos := by
  have := moves.inside
  have := moves.forward
  rw [State.length_cursor, State.length_cursor, moves.text]
  omega

end Moves

namespace Walk

variable {α β σ : Type} {t : Walk α} {f : α → Walk β} {s s' : State} {a : α}
  {c c' : Cursor} {b : UInt8} {r : Bytes}

/-! ## What a walk does -/

/-- The walk ends as a reader does that finds the given result: with the same value or error,
and with the same input left, having moved on in its text.  In particular it does not panic and
does not use up its fuel. -/
def Follows (t : Walk α) (s : State) (result : Except ReadError (α × Cursor)) : Prop :=
  ∃ s', Moves s s' ∧
    match result with
    | .ok (a, c) => t.run s = (.ok a, s') ∧ s'.cursor = c
    | .error e => t.run s = (.error (.error e), s')

theorem run_bind (t : Walk α) (f : α → Walk β) (s : State) :
    (t >>= f).run s = ExceptT.bindCont f (t.run s).1 (t.run s).2 :=
  rfl

theorem follows_pure (inside : s.Inside) (a : α) :
    (pure a : Walk α).Follows s (.ok (a, s.cursor)) :=
  ⟨s, .refl inside, rfl, rfl⟩

theorem Follows.bind {result : Except ReadError (β × Cursor)} (first : t.Follows s (.ok (a, c)))
    (second : ∀ s', Moves s s' → s'.cursor = c → (f a).Follows s' result) :
    (t >>= f).Follows s result := by
  obtain ⟨s₁, moves, hrun, hcursor⟩ := first
  obtain ⟨s₂, moves', ends⟩ := second s₁ moves hcursor
  have hbind : (t >>= f).run s = (f a).run s₁ := by
    rw [run_bind, hrun]
    rfl
  refine ⟨s₂, moves.trans moves', ?_⟩
  rw [hbind]
  exact ends

theorem Follows.bind_at {result : Except ReadError (β × Cursor)} {loc : Location}
    (first : t.Follows s (.ok (a, ⟨loc, r⟩)))
    (second : ∀ s', Moves s s' → s'.loc = loc → s'.cursor.rest = r → (f a).Follows s' result) :
    (t >>= f).Follows s result :=
  first.bind fun s' moves hcursor =>
    second s' moves (congrArg Cursor.loc hcursor) (congrArg Cursor.rest hcursor)

theorem Follows.stop {e : ReadError} (first : t.Follows s (.error e)) :
    (t >>= f).Follows s (.error e) := by
  obtain ⟨s₁, moves, hrun⟩ := first
  refine ⟨s₁, moves, ?_⟩
  rw [run_bind, hrun]
  rfl

theorem Follows.bind_result {result : Except ReadError (α × Cursor)}
    {others : α × Cursor → Except ReadError (β × Cursor)} (first : t.Follows s result)
    (second : ∀ a s', result = .ok (a, s'.cursor) → Moves s s' →
      (f a).Follows s' (others (a, s'.cursor))) :
    (t >>= f).Follows s (result.bind others) := by
  cases result with
  | error e => exact first.stop
  | ok p =>
    refine Follows.bind (a := p.1) (c := p.2) first fun s' moves hcursor => ?_
    have hp : p = (p.1, s'.cursor) := by rw [hcursor]
    rw [hp]
    exact second p.1 s' (congrArg _ hp) moves

theorem Follows.map {result : Except ReadError (α × Cursor)} (first : t.Follows s result)
    (g : α → β) :
    (t >>= fun a => pure (g a)).Follows s (result.map fun p => (g p.1, p.2)) := by
  have hmap : (result.map fun p => (g p.1, p.2)) = result.bind fun p => .ok (g p.1, p.2) := by
    cases result <;> rfl
  rw [hmap]
  exact first.bind_result fun a s' _ moves => follows_pure moves.inside' _

/-! ## Looks ahead

A look ahead leaves the state alone, so that it can be left out of a walk. -/

theorem follows_of_tells {result : Except ReadError (β × Cursor)} (tells : t.run s = (.ok a, s)) :
    (t >>= f).Follows s result ↔ (f a).Follows s result := by
  have hbind : (t >>= f).run s = (f a).run s := by
    rw [run_bind, tells]
    rfl
  rw [Follows, Follows, hbind]

variable {result : Except ReadError (β × Cursor)}

theorem follows_get {f : State → Walk β} :
    ((get : Walk State) >>= f).Follows s result ↔ (f s).Follows s result :=
  follows_of_tells rfl

theorem run_index {α : Type} {xs : List α} {i : Nat} {x : α} (found : xs[i]? = some x) (s : State) :
    (index xs i).run s = (.ok x, s) := by
  rw [index, found]
  rfl

theorem rest_getElem? (s : State) (k : Nat) : s.cursor.rest[k]? = s.text[s.pos + k]? :=
  List.getElem?_drop

theorem rest_eq_nil_iff (s : State) : s.cursor.rest = [] ↔ s.text.length ≤ s.pos :=
  List.drop_eq_nil_iff

theorem run_done (s : State) : done.run s = (.ok s.cursor.rest.isEmpty, s) := by
  have hend : decide (s.text.length ≤ s.pos) = s.cursor.rest.isEmpty := by
    rw [Bool.eq_iff_iff, decide_eq_true_iff, List.isEmpty_iff, rest_eq_nil_iff]
  rw [← hend]
  rfl

theorem run_peekAt (k : Nat) (s : State) :
    (peekAt k).run s = (.ok (s.cursor.rest[k]?.getD 0), s) := by
  have hget : (peekAt k).run s = (if s.text.length ≤ s.pos + k then pure 0
      else index s.text (s.pos + k) : Walk UInt8).run s := rfl
  rw [hget, rest_getElem?]
  split
  · rename_i behind
    rw [List.getElem?_eq_none behind]
    rfl
  · rename_i ahead
    have found := List.getElem?_eq_getElem (Nat.lt_of_not_le ahead)
    rw [found]
    exact run_index found s

theorem run_peek (s : State) : peek.run s = (.ok (s.cursor.rest.head?.getD 0), s) := by
  rw [List.head?_eq_getElem?]
  exact run_peekAt 0 s

theorem run_sees (b : UInt8) (s : State) :
    (sees b).run s = (.ok (s.cursor.rest.head? == some b), s) := by
  have hget : (sees b).run s = (if s.text.length ≤ s.pos then pure false
      else index s.text s.pos >>= fun c => pure (c == b) : Walk Bool).run s := rfl
  rw [hget, List.head?_eq_getElem?, rest_getElem?, Nat.add_zero]
  split
  · rename_i behind
    rw [List.getElem?_eq_none behind]
    rfl
  · rename_i ahead
    have found := List.getElem?_eq_getElem (Nat.lt_of_not_le ahead)
    rw [found, run_bind, run_index found]
    rfl

section Looks

variable {x y : Walk β} {f : UInt8 → Walk β}

theorem follows_done_cons (ahead : s.cursor.rest = b :: r) :
    (done >>= fun atEnd => if atEnd = true then x else y).Follows s result ↔
      y.Follows s result := by
  rw [follows_of_tells (run_done s), ahead]
  exact Iff.rfl

theorem follows_done_nil (atEnd : s.cursor.rest = []) :
    (done >>= fun atEnd => if atEnd = true then x else y).Follows s result ↔
      x.Follows s result := by
  rw [follows_of_tells (run_done s), atEnd]
  exact Iff.rfl

theorem follows_peek_cons (ahead : s.cursor.rest = b :: r) :
    (peek >>= f).Follows s result ↔ (f b).Follows s result := by
  rw [follows_of_tells (run_peek s), ahead]
  exact Iff.rfl

theorem follows_peek_nil (atEnd : s.cursor.rest = []) :
    (peek >>= f).Follows s result ↔ (f 0).Follows s result := by
  rw [follows_of_tells (run_peek s), atEnd]
  exact Iff.rfl

theorem follows_peekAt_one (ahead : s.cursor.rest = b :: r) :
    (peekAt 1 >>= f).Follows s result ↔ (f (r.head?.getD 0)).Follows s result := by
  rw [follows_of_tells (run_peekAt 1 s), ahead, List.getElem?_cons_succ, ← List.head?_eq_getElem?]

theorem follows_sees_cons (ahead : s.cursor.rest = b :: r) (b' : UInt8) :
    (sees b' >>= fun seen => if seen = true then x else y).Follows s result ↔
      (if b = b' then x else y).Follows s result := by
  rw [follows_of_tells (run_sees b' s), ahead]
  by_cases same : b = b' <;> simp [same]

theorem follows_sees_nil (atEnd : s.cursor.rest = []) (b' : UInt8) :
    (sees b' >>= fun seen => if seen = true then x else y).Follows s result ↔
      y.Follows s result := by
  rw [follows_of_tells (run_sees b' s), atEnd]
  exact Iff.rfl

end Looks

/-! ## Bytes and reports -/

/-- A byte may be taken where there is one. -/
theorem follows_next (ahead : s.cursor.rest = b :: r) :
    next.Follows s (.ok (b, ⟨s.loc.next b, r⟩)) := by
  have inside : s.pos < s.text.length := by
    refine Nat.lt_of_not_le fun behind => ?_
    rw [(rest_eq_nil_iff s).mpr behind] at ahead
    cases ahead
  have found : s.text[s.pos]? = some b := by
    rw [← Nat.add_zero s.pos, ← rest_getElem?, ahead]
    rfl
  have hrest : s.text.drop (s.pos + 1) = r := by
    have hdrop : (s.text.drop s.pos).drop 1 = r := congrArg (List.drop 1) ahead
    rwa [List.drop_drop] at hdrop
  let s₁ : State := { s with trace := s.trace ++ [.next s.pos] }
  have moves : Moves s s₁ := (Moves.refl (Nat.le_of_lt inside)).record inside
  refine ⟨{ s₁ with pos := s.pos + 1, loc := s.loc.next b }, ?_, ?_, ?_⟩
  · exact ⟨rfl, Nat.le_succ _, inside, moves.traced⟩
  · have hindex : next.run s = (index s.text s.pos >>= fun b => do
        modify fun s => { s with pos := s.pos + 1, loc := s.loc.next b }
        pure b : Walk UInt8).run s₁ := rfl
    rw [hindex, run_bind, run_index found]
    rfl
  · exact congrArg (Cursor.mk _) hrest

theorem follows_next_bind {f : UInt8 → Walk β} (ahead : s.cursor.rest = b :: r)
    (second : ∀ s', Moves s s' → s'.loc = s.loc.next b → s'.cursor.rest = r →
      (f b).Follows s' result) : (next >>= f).Follows s result :=
  (follows_next ahead).bind_at second

theorem follows_pure_at {loc : Location} (inside : s.Inside) (hloc : s.loc = loc)
    (hrest : s.cursor.rest = r) (a : α) : (pure a : Walk α).Follows s (.ok (a, ⟨loc, r⟩)) := by
  subst hloc hrest
  exact follows_pure inside a

theorem run_found (s : State) : found.run s = (.ok s.cursor.found, s) := by
  rw [found, run_bind, run_done, Cursor.found]
  cases hrest : s.cursor.rest with
  | nil => rfl
  | cons b r =>
    have hpeek := run_peek s
    rw [hrest] at hpeek
    change (peek >>= fun b => pure (Found.byte b) : Walk Found).run s = _
    rw [run_bind, hpeek]
    rfl

theorem follows_fail {loc : Location} (inside : s.Inside) (hloc : s.loc = loc)
    (cause : ReadCause) : (fail cause : Walk α).Follows s (.error ⟨loc.line, cause⟩) := by
  subst hloc
  exact ⟨s, .refl inside, rfl⟩

theorem follows_failFound (inside : s.Inside) (cause : Found → ReadCause) :
    (failFound cause : Walk α).Follows s (.error ⟨s.loc.line, cause s.cursor.found⟩) := by
  rw [failFound, follows_of_tells (run_found s)]
  exact follows_fail inside rfl _

theorem follows_failFound_nil {loc : Location} (inside : s.Inside) (hloc : s.loc = loc)
    (atEnd : s.cursor.rest = []) (cause : Found → ReadCause) :
    (failFound cause : Walk α).Follows s (.error ⟨loc.line, cause .endOfInput⟩) := by
  have follows := follows_failFound (α := α) inside cause
  rwa [hloc, Cursor.found, atEnd] at follows

theorem follows_failFound_cons {loc : Location} (inside : s.Inside) (hloc : s.loc = loc)
    (ahead : s.cursor.rest = b :: r) (cause : Found → ReadCause) :
    (failFound cause : Walk α).Follows s (.error ⟨loc.line, cause (.byte b)⟩) := by
  have follows := follows_failFound (α := α) inside cause
  rwa [hloc, Cursor.found, ahead] at follows

theorem follows_record {e : Event} (inside : s.Inside) (sound : e.Sound s.text.length) :
    (record e).Follows s (.ok ((), s.cursor)) :=
  ⟨_, (Moves.refl inside).record sound, rfl, rfl⟩

/-! ## Calls and loops -/

/-- A call writes down that it has not gone back; a call that reads a datum has moved on. -/
theorem follows_call {result : Except ReadError (α × Cursor)} {routine : Routine}
    (follows : t.Follows s result)
    (progress : routine = .datum → ∀ a c, result = .ok (a, c) →
      c.rest.length < s.cursor.rest.length) :
    (call routine t).Follows s result := by
  obtain ⟨s', moves, ends⟩ := follows
  have hcall : (call routine t).run s = ((t.run s).1, { (t.run s).2 with
      trace := (t.run s).2.trace ++
        [.call routine s.pos (t.run s).2.pos (t.run s).1.isOk] }) := rfl
  cases result with
  | error e =>
    rw [ends] at hcall
    have sound : (Event.call routine s.pos s'.pos false).Sound s.text.length :=
      ⟨moves.forward, moves.inside, fun _ failed => nomatch failed⟩
    exact ⟨_, moves.record sound, hcall⟩
  | ok p =>
    obtain ⟨a, c⟩ := p
    obtain ⟨hrun, hcursor⟩ := ends
    rw [hrun] at hcall
    have sound : (Event.call routine s.pos s'.pos true).Sound s.text.length :=
      ⟨moves.forward, moves.inside, fun isDatum _ =>
        moves.length_lt_iff.mp (hcursor ▸ progress isDatum a c rfl)⟩
    exact ⟨_, moves.record sound, hcall, hcursor⟩

/-- What a turn has to do for its loop to do what is specified: it ends the loop, or it moves on
and leaves the same to be done. -/
inductive TurnFollows (turn : σ → Walk (Turn σ α))
    (spec : σ → Cursor → Except ReadError (α × Cursor)) (Good : σ → Prop) (x : σ) (s : State) :
    Prop where
  | stops {e : ReadError} (refused : spec x s.cursor = .error e)
      (follows : (turn x).Follows s (.error e))
  | finishes {a : α} {c : Cursor} (finished : spec x s.cursor = .ok (a, c))
      (follows : (turn x).Follows s (.ok (.finish a, c)))
  | goesOn {y : σ} {c : Cursor} (good : Good y) (shorter : c.rest.length < s.cursor.rest.length)
      (same : spec x s.cursor = spec y c) (follows : (turn x).Follows s (.ok (.again y, c)))

/-- A loop does what is specified if each of its turns does. -/
theorem follows_loop {turn : σ → Walk (Turn σ α)} {l : Loop} {limit : Nat}
    (spec : σ → Cursor → Except ReadError (α × Cursor)) (Good : σ → Prop)
    (turns : ∀ x s, s.Inside → s.cursor.rest.length < limit → Good x →
      TurnFollows turn spec Good x s) :
    ∀ (fuel : Nat) (x : σ) (s : State), s.Inside → s.cursor.rest.length < limit → Good x →
      s.cursor.rest.length < fuel → (loop l turn fuel x).Follows s (spec x s.cursor) := by
  intro fuel
  induction fuel with
  | zero =>
    intro x s _ _ _ enough
    exact absurd enough (Nat.not_lt_zero _)
  | succ fuel ih =>
    intro x s inside small good enough
    rw [loop, follows_get]
    cases turns x s inside small good with
    | stops refused follows =>
      rw [refused]
      exact follows.stop
    | finishes finished follows =>
      rw [finished]
      refine follows.bind fun s' moves hcursor => ?_
      rw [← hcursor]
      exact follows_pure moves.inside' _
    | goesOn good shorter same follows =>
      rw [same]
      refine follows.bind fun s' moves hcursor => ?_
      subst hcursor
      have sound : (Event.turn l s.pos s'.pos).Sound s'.text.length := by
        rw [moves.text]
        exact ⟨moves.length_lt_iff.mp shorter, moves.inside⟩
      refine follows_get.mpr ?_
      refine (follows_record moves.inside' sound).bind fun s'' moves' hcursor => ?_
      rw [← hcursor] at shorter ⊢
      exact ih _ s'' moves'.inside' (by omega) good (by omega)

end Walk

end TreeWat.Datum
