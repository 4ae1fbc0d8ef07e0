import TreeWat.Failure
import TreeWat.Proofs.Text.Line
set_option autoImplicit false

/-!
# Messages: diagnostics and shape errors fit on one line

A diagnostic flattens the line breaks of its parts.  A shape error does not, but its parts
are wordings, numbers, locations and names of kinds, unless it was stated in words by hand.
-/

namespace TreeWat

theorem BinaryOp.oneLine_text (op : BinaryOp) : OneLine op.text := by
  cases op <;> decide

@[simp] theorem Kind.oneLine_text (k : Kind) : OneLine k.text := by
  cases k with
  | binary op => exact op.oneLine_text
  | unary op => cases op <;> decide
  | _ => decide

@[simp] theorem Location.oneLine_text (l : Location) : OneLine l.text := by
  unfold Location.text
  split <;> simp +decide

/-- A diagnostic fits on one line, whatever token and detail it has. -/
theorem Diagnostic.oneLine_text (d : Diagnostic) : OneLine d.text :=
  oneLine_replace _ _ (by decide)

/-! ## Shape errors -/

/-- The cause names nothing but kinds, and has no words of its own. -/
@[simp] def ShapeCause.NamesKinds : ShapeCause → Prop
  | .wrongKind allowed => ∀ name ∈ allowed, ∃ k : Kind, name = k.text
  | .missingNode allowed => ∀ name ∈ allowed, ∃ k : Kind, name = k.text
  | .other _ => False
  | _ => True

namespace ShapeError

@[simp] theorem oneLine_kindText (e : ShapeError) : OneLine e.kindText := by
  unfold kindText
  split <;> simp

theorem oneLine_alternatives {names : List Bytes}
    (kinds : ∀ name ∈ names, ∃ k : Kind, name = k.text) : OneLine (alternatives names) := by
  refine oneLine_join (by decide) fun name hname => ?_
  obtain ⟨k, rfl⟩ := kinds name hname
  exact k.oneLine_text

theorem oneLine_detail {e : ShapeError} (named : e.cause.NamesKinds) : OneLine e.detail := by
  unfold detail
  cases hcause : e.cause with
  | wrongKind allowed =>
    rw [hcause] at named
    simp +decide [oneLine_alternatives named]
  | missingNode allowed =>
    rw [hcause] at named
    simp +decide [oneLine_alternatives named]
  | other text =>
    rw [hcause] at named
    exact named.elim
  | _ => simp +decide

theorem oneLine_text {e : ShapeError} (named : e.cause.NamesKinds) : OneLine e.text := by
  have hdetail := oneLine_detail named
  unfold text
  cases e.kind <;> cases e.loc.isKnown <;> simp +decide [hdetail]

end ShapeError

/-! ## Failures -/

/-- The failure blames the user's program, or the layout of the tree in the names of kinds.
A fault blames neither. -/
def Failure.IsComplaint : Failure → Prop
  | .user _ => True
  | .shape e => e.cause.NamesKinds
  | .fault _ => False

end TreeWat
