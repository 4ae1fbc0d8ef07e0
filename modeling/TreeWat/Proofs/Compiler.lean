import TreeWat.Compiler
import TreeWat.Proofs.Check.Faultless
import TreeWat.Proofs.Lower.Program
set_option autoImplicit false

/-!
# Compiler: how a compilation can end

Every text is rejected by the reader, rejected by the checker, for a breach of the
language or of the layout of trees, or compiled.  Lowering comes behind the checker
and succeeds on all that the checker lets through.
-/

namespace TreeWat.Compiler

/-- Why the checker rejects a tree. -/
theorem checkProgram_error {root : Node} {f : Failure}
    (rejected : Check.checkProgram root = .error f) : (∃ d, f = .user d) ∨ ∃ e, f = .shape e := by
  cases f with
  | user d => exact .inl ⟨d, rfl⟩
  | shape e => exact .inr ⟨e, rfl⟩
  | fault g => exact absurd rejected (Check.faultless_checkProgram root g)

/-- A tree is compiled exactly if it passes the checker. -/
theorem compile_error_iff {debug : Bool} {root : Node} {f : Failure} :
    compile debug root = .error f ↔ Check.checkProgram root = .error f := by
  unfold compile
  cases hcheck : Check.checkProgram root with
  | error g => simp
  | ok checked =>
    obtain ⟨m, hm⟩ := Lower.program_of_checkProgram hcheck debug
    simp [hm]

theorem checkProgram_of_compile {debug : Bool} {root : Node} {r : Result}
    (compiled : compile debug root = .ok r) : Check.checkProgram root = .ok r.checked := by
  unfold compile at compiled
  split at compiled
  · cases compiled
  · rename_i hcheck
    split at compiled
    · cases compiled
    · cases compiled
      exact hcheck

theorem program_of_compile {debug : Bool} {root : Node} {r : Result}
    (compiled : compile debug root = .ok r) :
    Lower.program ⟨r.checked.scopes, debug⟩ r.checked.tree = .ok r.module := by
  unfold compile at compiled
  split at compiled
  · cases compiled
  · split at compiled
    · cases compiled
    · rename_i hprogram
      cases compiled
      exact hprogram

theorem compileSource_error {debug : Bool} {src : Bytes} {e : Error}
    (failed : compileSource debug src = .error e) :
    (∃ e', Tree.read src = .error e' ∧ e = .read e') ∨
      ∃ root f, Tree.read src = .ok root ∧ Check.checkProgram root = .error f ∧ e = .failure f := by
  unfold compileSource at failed
  split at failed
  · rename_i e' hread
    cases failed
    exact .inl ⟨e', hread, rfl⟩
  · rename_i root hread
    split at failed
    · rename_i f hcompile
      cases failed
      exact .inr ⟨root, f, hread, compile_error_iff.mp hcompile, rfl⟩
    · cases failed

theorem compileSource_ok_iff {debug : Bool} {src : Bytes} {r : Result} :
    compileSource debug src = .ok r ↔
      ∃ root, Tree.read src = .ok root ∧ compile debug root = .ok r := by
  unfold compileSource
  cases Tree.read src with
  | error e => simp
  | ok root => cases hcompile : compile debug root <;> simp [hcompile]

theorem compileSource_ok {debug : Bool} {src : Bytes} {r : Result}
    (compiled : compileSource debug src = .ok r) :
    ∃ root, Tree.read src = .ok root ∧ compile debug root = .ok r :=
  compileSource_ok_iff.mp compiled

/-- A compilation ends in a reading error, in a diagnostic or a shape error of the
checker, or in a module; on a tree that passed the checker lowering always yields the
module. -/
theorem compileSource_ends (debug : Bool) (src : Bytes) :
    ((∃ e, Tree.read src = .error e ∧ compileSource debug src = .error (.read e)) ∨
      (∃ root d, Tree.read src = .ok root ∧ Check.checkProgram root = .error (.user d) ∧
        compileSource debug src = .error (.failure (.user d))) ∨
      (∃ root e, Tree.read src = .ok root ∧ Check.checkProgram root = .error (.shape e) ∧
        compileSource debug src = .error (.failure (.shape e))) ∨
      ∃ root checked m, Tree.read src = .ok root ∧ Check.checkProgram root = .ok checked ∧
        Lower.program ⟨checked.scopes, debug⟩ checked.tree = .ok m ∧
        compileSource debug src = .ok ⟨checked, m⟩) ∧
    ∀ root checked, Check.checkProgram root = .ok checked →
      ∃ m, Lower.program ⟨checked.scopes, debug⟩ checked.tree = .ok m := by
  refine ⟨?_, fun root checked accepted => Lower.program_of_checkProgram accepted debug⟩
  unfold compileSource compile
  cases hread : Tree.read src with
  | error e => exact .inl ⟨e, rfl, rfl⟩
  | ok root =>
    refine .inr ?_
    cases hcheck : Check.checkProgram root with
    | error f =>
      obtain ⟨d, rfl⟩ | ⟨e, rfl⟩ := checkProgram_error hcheck
      · exact .inl ⟨root, d, rfl, hcheck, by simp [hcheck]⟩
      · exact .inr (.inl ⟨root, e, rfl, hcheck, by simp [hcheck]⟩)
    | ok checked =>
      obtain ⟨m, hm⟩ := Lower.program_of_checkProgram hcheck debug
      exact .inr (.inr ⟨root, checked, m, rfl, hcheck, hm, by simp [hcheck, hm]⟩)

/-- The sample program passes the checker, and has a module. -/
theorem program_of_sample :
    ∃ checked, Check.checkProgram sampleProgram = .ok checked ∧
      ∃ m, Lower.program ⟨checked.scopes, true⟩ checked.tree = .ok m := by
  obtain ⟨checked, accepted⟩ := Lower.sampleProgram_accepted
  exact ⟨checked, accepted, (compileSource_ends true []).2 sampleProgram checked accepted⟩

end TreeWat.Compiler
