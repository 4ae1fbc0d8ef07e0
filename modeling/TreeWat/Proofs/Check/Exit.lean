import TreeWat.Check.Program
import TreeWat.Proofs.Check.Statement
set_option autoImplicit false

/-!
# Check: the classification of exits reads no notes

The third round classifies statements on the tree that the second round has noted.
It reads kinds, children and the name of a callee, so a checked statement leaves as
the statement without its notes does.
-/

namespace TreeWat.Check

variable {scopes : Scopes}

theorem exitOfAll_noted {ss : List Node}
    (each : ∀ n ∈ ss, ∀ {own : Option ScopeId} {c c' : Context} {n' : Node},
      checkStatementIn own c n = (.ok (), n', c') → exitOf scopes n' = exitOf scopes n)
    {c c' : Context} {ss' : List Node} (accepted : checkStatements c ss = (.ok (), ss', c')) :
    exitOfAll scopes ss' = exitOfAll scopes ss := by
  induction ss generalizing c ss' with
  | nil =>
    obtain ⟨rfl, -⟩ := checkStatements_nil.mp accepted
    rfl
  | cons n rest ih =>
    obtain ⟨n', c₁, rest', hn, hrest, rfl⟩ := checkStatements_cons.mp accepted
    have hfirst := each n List.mem_cons_self hn
    have hothers := ih (fun m hm => each m (List.mem_cons_of_mem _ hm)) hrest
    rw [exitOfAll, exitOfAll, hfirst, hothers]

theorem exitOf_noted {n : Node} :
    ∀ {own : Option ScopeId} {c c' : Context} {n' : Node},
      checkStatementIn own c n = (.ok (), n', c') → exitOf scopes n' = exitOf scopes n := by
  induction n using Node.induction with
  | step n ih =>
    intro own c c' n' accepted
    have child : ∀ {m : Node}, m ∈ n.children → m ∈ n.descendants := Node.mem_descendants_of_child
    cases checkStatementIn_ok_iff.mp accepted with
    | block acceptedAll =>
      rw [exitOf, exitOf]
      exact exitOfAll_noted (fun m hm => ih m (child hm)) acceptedAll
    | call isCall acceptedCall =>
      cases checkExpression_ok_iff.mp acceptedCall with
      | call _ _ => rw [exitOf, exitOf]
      | literal isLiteral =>
        cases isCall
        cases isLiteral
      | _ => cases isCall
    | @ifElse _ _ _ _ _ arm₁ _ arm₂ _ _ _ _ _ _ _ _ accepted₁ accepted₂ =>
      rw [exitOf, exitOf, ih arm₁ (child (by simp)) accepted₁, ih arm₂ (child (by simp)) accepted₂]
    | _ => simp [exitOf]

theorem exitOfAll_of_checkStatements {c c' : Context} {ss ss' : List Node}
    (accepted : checkStatements c ss = (.ok (), ss', c')) :
    exitOfAll scopes ss' = exitOfAll scopes ss :=
  exitOfAll_noted (fun _ _ => exitOf_noted) accepted

/-- A function with a result that passed the third round returns on all paths. -/
theorem exitOfAll_of_checkReturns {kind : Kind} {attr bodyAttr : Bytes} {loc bodyLoc : Location}
    {note bodyNote : Option Annotation} {resultNode name params : Node} {ss : List Node}
    {result : Ty} (isFunction : kind = .functionDeclaration ∨ kind = .entryPointDeclaration)
    (isResult : resultNode.kind.type? = some result) (hasResult : result ≠ .void)
    (accepted : checkReturns scopes ⟨kind, attr, loc, note, [resultNode, name, params,
      ⟨.block, bodyAttr, bodyLoc, bodyNote, ss⟩]⟩ = .ok ()) :
    exitOfAll scopes ss = .ok .alwaysReturns := by
  have htype : typeOf resultNode = .ok result := typeOf_ok_iff.mpr isResult
  unfold checkReturns at accepted
  rw [if_pos isFunction] at accepted
  simp only [Node.child, List.getElem?_cons_zero, List.getElem?_cons_succ, bind, Except.bind,
    htype, Outcome.ofShape, hasResult, if_false, exitOf] at accepted
  cases hexit : exitOfAll scopes ss with
  | error e => simp [hexit] at accepted
  | ok exit => cases exit <;> simp [hexit] at accepted ⊢

end TreeWat.Check
