import TreeWat.Proofs.Datum.Refusal
import TreeWat.Proofs.Datum.Roundtrip
import TreeWat.Proofs.Message
import TreeWat.Tree.Reader
set_option autoImplicit false

/-!
# Trees: line breaks in messages

Names, numbers and locations enter the messages in a form without line breaks.  A datum that
stands in the place of a node or of a number is printed as it is, and the strings in it may
go over several lines.

Main statement: `oneLine_text_of_read`.
-/

namespace TreeWat.Tree

/-- The message of the error takes over a line break: the byte that the reader stumbled over,
or one in a string of the datum that stands in the place of a node or of a number. -/
def ReadError.NamesBreak : ReadError → Prop
  | .brackets e => e.cause.NamesBreak
  | .tree _ (.badMetadata _ value) => value.HasBreak
  | .tree _ (.notANode d) => d.HasBreak
  | .tree _ _ => False

/-- The parts of the message are numbers, keys of locations and data that can be written in
the notation. -/
def ReadCause.Plain : ReadCause → Prop
  | .numberTooLarge text => OneLine text
  | .badMetadata key value => OneLine key ∧ value.WellFormed
  | .metadataTooLarge key _ => OneLine key
  | .notANode d => d.WellFormed
  | _ => True

theorem oneLine_tree_iff {line : Int} {cause : ReadCause} (plain : cause.Plain) :
    OneLine (ReadError.tree line cause).text ↔ ¬ (ReadError.tree line cause).NamesBreak := by
  have hcause : OneLine (ReadError.tree line cause).text ↔ OneLine cause.text := by
    simp +decide [ReadError.text]
  rw [hcause]
  cases cause with
  | numberTooLarge text =>
    have htext : OneLine text := plain
    simp +decide [ReadCause.text, ReadError.NamesBreak, htext]
  | badMetadata key value =>
    obtain ⟨hkey, formed⟩ : OneLine key ∧ value.WellFormed := plain
    simp +decide [ReadCause.text, ReadError.NamesBreak, hkey, formed.oneLine_print_iff]
  | notANode d =>
    have formed : d.WellFormed := plain
    simp +decide [ReadCause.text, ReadError.NamesBreak, formed.oneLine_print_iff]
  | metadataTooLarge key text =>
    have hkey : OneLine key := plain
    simp +decide [ReadCause.text, ReadError.NamesBreak, hkey]
  | _ => simp +decide [ReadCause.text, ReadError.NamesBreak]

/-! ## Refusals -/

theorem parts_of_wellFormed {loc : Location} {keys : List Bytes} {values items : List Datum}
    (formed : (Datum.list loc keys values items).WellFormed) :
    (∀ v ∈ values, v.WellFormed) ∧ ∀ d ∈ items, d.WellFormed := by
  cases formed with
  | list _ _ _ notes contents => exact ⟨notes, contents⟩

theorem plain_of_checkLiteral {text : Bytes} {parent : Option Kind} {cause : ReadCause}
    (refused : checkLiteral text parent = .error cause) : cause.Plain := by
  unfold checkLiteral Bytes.toInt64? at refused
  split at refused
  · cases refused
    trivial
  · rename_i hnumber
    split at hnumber
    · rename_i htext
      split at refused
      · cases refused
        exact oneLine_of_toInt? (by simp [htext])
      · cases refused
    · cases hnumber

theorem plain_of_metadataInt {key : Bytes} (hkey : OneLine key) {value : Datum}
    (formed : value.WellFormed) {cause : ReadCause}
    (refused : metadataInt key value = .error cause) : cause.Plain := by
  unfold metadataInt at refused
  split at refused
  · split at refused
    · cases refused
    · cases refused
      exact hkey
  · cases refused
    exact ⟨hkey, formed⟩

theorem mem_of_entry {key : Bytes} {keys : List Bytes} {values : List Datum} {v : Datum}
    (h : Datum.entry? key keys values = some v) : v ∈ values := by
  fun_induction Datum.entry? key keys values with
  | case1 => simp_all
  | case2 _ _ _ _ _ ih => exact List.mem_cons_of_mem _ (ih h)
  | case3 => cases h

theorem plain_of_location {loc : Location} {keys : List Bytes} {values items : List Datum}
    (formed : ∀ v ∈ values, v.WellFormed) {cause : ReadCause}
    (refused : location (.list loc keys values items) = .error cause) : cause.Plain := by
  unfold location at refused
  split at refused
  · cases refused
  · rename_i line hline
    have lineFormed := formed line (mem_of_entry hline)
    cases hvalue : metadataInt (utf8 "line") line with
    | error e =>
      rw [hvalue] at refused
      cases refused
      exact plain_of_metadataInt (by decide) lineFormed hvalue
    | ok l =>
      rw [hvalue] at refused
      dsimp only [bind, Except.bind] at refused
      split at refused
      · cases refused
      · rename_i col hcol
        have colFormed := formed col (mem_of_entry hcol)
        cases hvalue : metadataInt (utf8 "col") col with
        | error e =>
          rw [hvalue] at refused
          cases refused
          exact plain_of_metadataInt (by decide) colFormed hvalue
        | ok c =>
          rw [hvalue] at refused
          cases refused

mutual

theorem plain_of_ofDatum {parent : Option Kind} {d : Datum} (formed : d.WellFormed) {e : ReadError}
    (refused : ofDatum parent d = .error e) : ∃ line cause, e = .tree line cause ∧ cause.Plain := by
  unfold ofDatum at refused
  split at refused
  · split at refused
    · cases refused
      exact ⟨_, _, rfl, trivial⟩
    · split at refused
      · cases refused
        exact ⟨_, _, rfl, trivial⟩
      · cases refused
  · obtain ⟨notes, contents⟩ := parts_of_wellFormed formed
    split at refused
    · split at refused
      · cases refused
        exact ⟨_, _, rfl, trivial⟩
      · split at refused
        · rename_i hplace
          cases refused
          exact ⟨_, _, rfl, plain_of_location notes hplace⟩
        · split at refused
          · split at refused
            · split at refused
              · split at refused
                · rename_i hliteral
                  cases refused
                  exact ⟨_, _, rfl, plain_of_checkLiteral hliteral⟩
                · cases refused
              · cases refused
            · cases refused
              exact ⟨_, _, rfl, trivial⟩
          · split at refused
            · rename_i hchildren
              cases refused
              exact plain_of_ofData (List.forall_mem_cons.mp contents).2 hchildren
            · cases refused
    · cases refused
      exact ⟨_, _, rfl, trivial⟩
  · cases refused
    exact ⟨_, _, rfl, formed⟩
termination_by sizeOf d

theorem plain_of_ofData {parent : Kind} {ds : List Datum} (formed : ∀ d ∈ ds, d.WellFormed)
    {e : ReadError} (refused : ofData parent ds = .error e) :
    ∃ line cause, e = .tree line cause ∧ cause.Plain := by
  cases ds with
  | nil =>
    rw [ofData] at refused
    cases refused
  | cons d rest =>
    obtain ⟨hd, hrest⟩ := List.forall_mem_cons.mp formed
    rw [ofData] at refused
    split at refused
    · rename_i hfirst
      cases refused
      exact plain_of_ofDatum hd hfirst
    · split at refused
      · rename_i hothers
        cases refused
        exact plain_of_ofData hrest hothers
      · cases refused
termination_by sizeOf ds

end

/-- The message of a refusal fits on one line, unless it takes over a byte or a datum with a
line break in it. -/
theorem oneLine_text_of_read {s : Bytes} {e : ReadError} (refused : read s = .error e) :
    OneLine e.text ↔ ¬ e.NamesBreak := by
  unfold read at refused
  split at refused
  · rename_i e' hbrackets
    cases refused
    have htext := Datum.oneLine_text_of_read hbrackets
    simpa +decide [ReadError.text, ReadError.NamesBreak] using htext
  · rename_i d hread
    obtain ⟨line, cause, rfl, plain⟩ := plain_of_ofDatum (Datum.wellFormed_of_read hread) refused
    exact oneLine_tree_iff plain

end TreeWat.Tree
