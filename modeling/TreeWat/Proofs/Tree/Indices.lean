import TreeWat.Proofs.Datum.Progress
import TreeWat.Tree.Reader
set_option autoImplicit false

/-!
# Tree: reading trees without an index out of range

A node takes its parts from a list by index: its kind at the first place, the value of a
literal at the second, its metadata beside their keys.  The conversion is written down here
with its indices, each of which would end it with a panic if it were out of range
(`nodeOf`).  It agrees with the reader of trees, so that none ever is.

Main statement: `reading_makes_progress`.
-/

namespace TreeWat.Tree

open Datum (Halt State Walk)

variable {ε : Type}

/-! ## Conversion with indices -/

/-- The element of a list at an index. -/
def element {α : Type} (xs : List α) (i : Nat) : Except (Halt ε) α :=
  match xs[i]? with
  | some x => .ok x
  | none => .error .panic

/-- The value beside the first key that matches, from an index on.  A key without a value is
passed over. -/
def noteAt (key : Bytes) (values : List Datum) : Nat → List Bytes →
    Except (Halt ε) (Option Datum)
  | _, [] => .ok none
  | i, k :: ks =>
    if k = key ∧ i < values.length then do
      let v ← element values i
      pure (some v)
    else noteAt key values (i + 1) ks

/-- The location of the node that a list describes. -/
def placeOf (loc : Location) (keys : List Bytes) (values : List Datum) :
    Except (Halt ReadCause) Location := do
  match ← noteAt (utf8 "line") values 0 keys with
  | none => pure loc
  | some line =>
    let l ← (metadataInt (utf8 "line") line).mapError .error
    match ← noteAt (utf8 "col") values 0 keys with
    | none => pure ⟨l, 0⟩
    | some col =>
      let c ← (metadataInt (utf8 "col") col).mapError .error
      pure ⟨l, c⟩

/-- The cause of an error with the line it is reported at. -/
def atLine (line : Int) : Halt ReadCause → Halt ReadError
  | .error cause => .error (.tree line cause)
  | .panic => .panic
  | .exhausted => .exhausted

mutual

/-- The tree that a datum describes, below a node of kind `parent`. -/
def nodeOf (parent : Option Kind) (d : Datum) : Except (Halt ReadError) Node :=
  match d with
  | .atom .symbol loc name =>
    match Kind.ofText? name with
    | none => .error (.error (.tree loc.line (.unknownKind name)))
    | some kind =>
      if kind.hasAttr then .error (.error (.tree loc.line (.missingValue kind)))
      else .ok (.leaf kind [] loc)
  | .list loc keys values items =>
    if items.length = 0 then .error (.error (.tree loc.line .noHead))
    else
      match element items 0 with
      | .error h => .error h
      | .ok (.atom .symbol _ name) =>
        match Kind.ofText? name with
        | none => .error (.error (.tree loc.line (.unknownKind name)))
        | some kind =>
          match (placeOf loc keys values).mapError (atLine loc.line) with
          | .error h => .error h
          | .ok place =>
            if kind.hasAttr then
              if items.length ≠ 2 then .error (.error (.tree loc.line (.notOneValue kind)))
              else
                match element items 1 with
                | .error h => .error h
                | .ok (.atom _ _ text) =>
                  if kind = .num then
                    match checkLiteral text parent with
                    | .error cause => .error (.error (.tree loc.line cause))
                    | .ok () => .ok (.leaf kind text place)
                  else .ok (.leaf kind text place)
                | .ok _ => .error (.error (.tree loc.line (.notOneValue kind)))
            else if items.length < 1 then .error .panic
            else
              match nodesFrom kind 1 items with
              | .error h => .error h
              | .ok children => .ok (.branch kind place children)
      | .ok _ => .error (.error (.tree loc.line .noHead))
  | d => .error (.error (.tree d.loc.line (.notANode d)))

/-- The children of a node of kind `parent`, from an index of a list on. -/
def nodesFrom (parent : Kind) (skipped : Nat) : List Datum → Except (Halt ReadError) (List Node)
  | [] => .ok []
  | d :: r =>
    match skipped with
    | skipped + 1 => nodesFrom parent skipped r
    | 0 =>
      match nodeOf (some parent) d with
      | .error h => .error h
      | .ok n =>
        match nodesFrom parent 0 r with
        | .error h => .error h
        | .ok ns => .ok (n :: ns)

end

/-- Reads a text that holds exactly one tree. -/
def walk (fuel : Nat) (text : Bytes) : Except (Halt ReadError) Node :=
  match ((Walk.document fuel).run (.start text)).1 with
  | .error (.error e) => .error (.error (.brackets e))
  | .error .panic => .error .panic
  | .error .exhausted => .error .exhausted
  | .ok d => nodeOf none d

/-! ## No index is out of range -/

theorem element_eq_ok {α : Type} {xs : List α} {i : Nat} {x : α} (found : xs[i]? = some x) :
    (element xs i : Except (Halt ε) α) = .ok x := by
  rw [element, found]

theorem element_zero {α : Type} (x : α) (xs : List α) :
    (element (x :: xs) 0 : Except (Halt ε) α) = .ok x :=
  rfl

theorem element_one {α : Type} (x y : α) (xs : List α) :
    (element (x :: y :: xs) 1 : Except (Halt ε) α) = .ok y :=
  rfl

theorem noteAt_eq (key : Bytes) (values : List Datum) (i : Nat) (ks : List Bytes) :
    (noteAt key values i ks : Except (Halt ε) _) = .ok (Datum.entry? key ks (values.drop i)) := by
  induction ks generalizing i with
  | nil => rfl
  | cons k ks ih =>
    rw [noteAt]
    by_cases inside : i < values.length
    · rw [List.drop_eq_getElem_cons inside, Datum.entry?]
      by_cases found : k = key
      · rw [if_pos ⟨found, inside⟩, if_pos found,
          element_eq_ok (List.getElem?_eq_getElem inside)]
        rfl
      · rw [if_neg (fun h => found h.1), if_neg found]
        exact ih (i + 1)
    · have behind := Nat.le_of_not_lt inside
      have nothing : ∀ ks, Datum.entry? key ks [] = none := fun ks => by cases ks <;> rfl
      rw [if_neg (fun h => inside h.2), ih, List.drop_eq_nil_of_le behind,
        List.drop_eq_nil_of_le (Nat.le_succ_of_le behind), nothing, nothing]

theorem placeOf_eq (loc : Location) (keys : List Bytes) (values items : List Datum) :
    placeOf loc keys values = (location (.list loc keys values items)).mapError .error := by
  rw [placeOf, noteAt_eq, noteAt_eq, location]
  simp only [Datum.metadata?, List.drop_zero, Datum.loc]
  cases Datum.entry? (utf8 "line") keys values with
  | none => rfl
  | some line =>
    simp only [bind, Except.bind]
    cases metadataInt (utf8 "line") line with
    | error cause => rfl
    | ok l =>
      simp only [Except.mapError]
      cases Datum.entry? (utf8 "col") keys values with
      | none => rfl
      | some col =>
        dsimp only
        cases metadataInt (utf8 "col") col <;> rfl

mutual

theorem nodeOf_eq (parent : Option Kind) (d : Datum) :
    nodeOf parent d = (ofDatum parent d).mapError .error := by
  cases d with
  | atom sort loc name =>
    cases sort with
    | string => rfl
    | integer => rfl
    | symbol =>
      rw [nodeOf, ofDatum]
      cases Kind.ofText? name with
      | none => rfl
      | some kind =>
        dsimp only
        cases kind.hasAttr <;> rfl
  | list loc keys values items =>
    cases items with
    | nil => rfl
    | cons head rest =>
      cases head with
      | atom sort headLoc name =>
        cases sort with
        | string => rfl
        | integer => rfl
        | symbol =>
          rw [nodeOf, ofDatum]
          simp only [List.length_cons, Nat.add_one_ne_zero, if_false, element_zero]
          cases Kind.ofText? name with
          | none => rfl
          | some kind =>
            dsimp only
            rw [placeOf_eq loc keys values []]
            cases location (.list loc keys values []) with
            | error cause => rfl
            | ok place =>
              dsimp only [Except.mapError]
              cases kind.hasAttr with
              | false =>
                have children : nodesFrom kind 1 (.atom .symbol headLoc name :: rest) =
                    (ofData kind rest).mapError .error := nodesFrom_eq kind rest
                rw [children]
                cases ofData kind rest <;> rfl
              | true =>
                rcases rest with _ | ⟨value, _ | ⟨more, rest⟩⟩
                · rfl
                · cases value with
                  | atom sort valueLoc text =>
                    by_cases isNum : kind = .num
                    · simp only [List.length_cons, List.length_nil, isNum, element_one, if_true]
                      cases checkLiteral text parent <;> rfl
                    · simp [isNum, element_one]
                  | list => rfl
                  | map => rfl
                  | foreign => rfl
                · simp
      | list => rfl
      | map => rfl
      | foreign => rfl
  | map loc keys values => rfl
  | foreign loc sort => rfl

theorem nodesFrom_eq (kind : Kind) (ds : List Datum) :
    nodesFrom kind 0 ds = (ofData kind ds).mapError .error := by
  cases ds with
  | nil => rfl
  | cons d r =>
    rw [nodesFrom, ofData, nodeOf_eq (some kind) d, nodesFrom_eq kind r]
    cases ofDatum (some kind) d with
    | error e => rfl
    | ok n => cases ofData kind r <;> rfl

end

/-! ## Reading ends, and in the text -/

/-- Fuel for the text is enough to read a tree. -/
theorem walk_eq {fuel : Nat} {text : Bytes} (enough : text.length < fuel) :
    walk fuel text = (read text).mapError .error := by
  obtain ⟨s', hrun, -⟩ := Walk.run_document enough
  rw [walk, hrun, read]
  cases Datum.read text with
  | error e => rfl
  | ok d => exact nodeOf_eq none d

/-- The reader always makes progress and stays in bounds.  From any position in a text or at its
end, and with fuel for what is left, blanks are skipped and a datum is read or refused without
a panic and without a lack of fuel, and with what the reader of the notation finds.  On the
way, as is written down, bytes are taken inside of the text only, no call goes back or leaves
the text, every datum that is read is not empty, and a loop goes on only after a turn that has
moved on.  So every text is read or refused, as a datum and as a tree. -/
theorem reading_makes_progress :
    (∀ (s : State) (fuel : Nat), s.Inside → s.text.length - s.pos < fuel →
      (∃ s', (Walk.skipSpace fuel).run s = (.ok (), s') ∧ Datum.Moves s s' ∧
        s'.cursor = s.cursor.skipBlanks) ∧
      ∃ s', Datum.Moves s s' ∧
        match Datum.readDatum s.cursor with
        | .ok (d, c) => (Walk.datum fuel).run s = (.ok d, s') ∧ s'.cursor = c ∧ s.pos < s'.pos
        | .error e => (Walk.datum fuel).run s = (.error (.error e), s')) ∧
    ∀ (text : Bytes) (fuel : Nat), text.length < fuel →
      (∃ s', (Walk.document fuel).run (.start text) = ((Datum.read text).mapError .error, s') ∧
        Datum.Moves (.start text) s') ∧
      walk fuel text = (read text).mapError .error := by
  refine ⟨fun s fuel inside enough => ?_,
    fun text fuel enough => ⟨Walk.run_document enough, walk_eq enough⟩⟩
  rw [← s.length_cursor] at enough
  constructor
  · obtain ⟨s', moves, hrun, hcursor⟩ := Walk.follows_skipSpace inside enough
    exact ⟨s', hrun, moves, hcursor⟩
  · obtain ⟨s', moves, ends⟩ := Walk.readsBelow_datum fuel s inside enough
    unfold Datum.datumAt at ends
    refine ⟨s', moves, ?_⟩
    cases hread : Datum.readDatum s.cursor with
    | error e =>
      rw [hread] at ends
      exact ends
    | ok p =>
      obtain ⟨d, c, shorter⟩ := p
      rw [hread] at ends
      obtain ⟨hrun, hcursor⟩ := ends
      exact ⟨hrun, hcursor, moves.length_lt_iff.mp (by rw [hcursor]; exact shorter)⟩

/-- A text that ends inside of a string, inside of a map, inside of a list. -/
def tornText : Bytes :=
  utf8 "(a ^\x7bk: \"b"

/-- The text from its metadata on. -/
def tornState : State :=
  ⟨tornText, 4, ⟨1, 5⟩, []⟩

theorem tornState_run : ((Walk.datum 20).run tornState).1 = .error (.error ⟨1, .openString⟩) ∧
    ((Walk.datum 20).run tornState).2.pos = tornText.length := by
  have outcome : (((Walk.datum 20).run tornState).1.map fun _ => ()) =
      .error (.error ⟨1, .openString⟩) := by decide +kernel
  refine ⟨?_, by decide +kernel⟩
  generalize ((Walk.datum 20).run tornState).1 = result at outcome ⊢
  cases result with
  | error halt =>
    cases outcome
    rfl
  | ok d => cases outcome

/-- The torn text is refused at its end, as a whole and from its metadata on. -/
theorem tornText_refused :
    tornState.Inside ∧ tornText.length - 4 < 20 ∧ tornText.length < 20 ∧
      (∃ s', Datum.Moves tornState s' ∧ s'.pos = tornText.length ∧
        (Walk.datum 20).run tornState = (.error (.error ⟨1, .openString⟩), s')) ∧
      walk 20 tornText = (read tornText).mapError .error := by
  have inside : tornState.Inside := by decide
  obtain ⟨s', moves, ends⟩ := (reading_makes_progress.1 tornState 20 inside (by decide)).2
  obtain ⟨outcome, position⟩ := tornState_run
  have hrun : (Walk.datum 20).run tornState = (.error (.error ⟨1, .openString⟩), s') := by
    cases hread : Datum.readDatum tornState.cursor with
    | error e =>
      rw [hread] at ends
      rw [ends] at outcome ⊢
      exact congrArg (·, s') outcome
    | ok p =>
      rw [hread] at ends
      rw [ends.1] at outcome
      cases outcome
  rw [hrun] at position
  exact ⟨inside, by decide, by decide, ⟨s', moves, position, hrun⟩,
    (reading_makes_progress.2 tornText 20 (by decide)).2⟩

end TreeWat.Tree
