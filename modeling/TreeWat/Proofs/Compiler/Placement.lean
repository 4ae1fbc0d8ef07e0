import Mathlib
import TreeWat.Proofs.Check.Placement
import TreeWat.Proofs.Compiler
import TreeWat.Proofs.Lower.Placement
set_option autoImplicit false

/-!
# Compiler: layout never influences code

Blanks, comments, line metadata and the spelling of atoms change where the nodes of a tree
stand and nothing else.  Two texts whose trees are equal up to locations are compiled to the
same module, or are rejected for the same reason.
-/

namespace TreeWat.Compiler

open Wat (Op)

/-- The compiled program without locations. -/
def Result.unplaced (r : Result) : Result :=
  ⟨r.checked.unplaced, r.module⟩

/-- What a tree without locations is compiled to. -/
theorem compile_unplaced (debug : Bool) (root : Node) :
    compile debug root.unplaced
      = mapEnds Failure.unplaced Result.unplaced (compile debug root) := by
  unfold compile
  rw [Check.checkProgram_unplaced]
  cases Check.checkProgram root with
  | error f => rfl
  | ok checked =>
    have hprogram := Lower.program_unplaced ⟨checked.scopes, debug⟩ checked.tree
    have henv : (Lower.Env.mk checked.scopes debug).unplaced
        = ⟨checked.unplaced.scopes, debug⟩ := rfl
    have htree : checked.tree.unplaced = checked.unplaced.tree := rfl
    rw [henv, htree] at hprogram
    simp only [mapEnds_ok]
    rw [hprogram]
    cases Lower.program ⟨checked.scopes, debug⟩ checked.tree <;> rfl

/-- Two compilations end in the same way: in the same module, or in failures of the same kind
with the same message. -/
inductive SameEnding : Except Error Result → Except Error Result → Prop where
  | compiled {r₁ r₂ : Result} (sameModule : r₁.module = r₂.module) (sameText : r₁.wat = r₂.wat) :
      SameEnding (.ok r₁) (.ok r₂)
  | rejected {d₁ d₂ : Diagnostic} (sameKind : d₁.kind = d₂.kind)
      (sameToken : d₁.token = d₂.token) (sameMessage : d₁.detail = d₂.detail) :
      SameEnding (.error (.failure (.user d₁))) (.error (.failure (.user d₂)))
  | misshapen {e₁ e₂ : ShapeError} (sameKind : e₁.kind = e₂.kind)
      (sameMessage : e₁.detail = e₂.detail) :
      SameEnding (.error (.failure (.shape e₁))) (.error (.failure (.shape e₂)))

/-- Failures of the checker that are equal up to locations. -/
theorem SameEnding.of_failures {f₁ f₂ : Failure} (same : f₁.unplaced = f₂.unplaced)
    (complaint : (∃ d, f₁ = .user d) ∨ ∃ e, f₁ = .shape e) :
    SameEnding (.error (.failure f₁)) (.error (.failure f₂)) := by
  rcases complaint with ⟨d, rfl⟩ | ⟨e, rfl⟩
  · cases f₂ with
    | user d₂ =>
      have hd : d.unplaced = d₂.unplaced := Failure.user.inj same
      simp only [Diagnostic.unplaced, Diagnostic.mk.injEq] at hd
      obtain ⟨sameKind, sameToken, -, sameMessage⟩ := hd
      exact .rejected sameKind sameToken sameMessage
    | shape e₂ => cases same
    | fault g => cases same
  · cases f₂ with
    | user d₂ => cases same
    | shape e₂ =>
      have he : e.unplaced = e₂.unplaced := Failure.shape.inj same
      have hdetail : e.unplaced.detail = e₂.unplaced.detail := by rw [he]
      simp only [ShapeError.unplaced, ShapeError.mk.injEq] at he
      exact .misshapen he.1 hdetail
    | fault g => cases same

theorem sameEnding_of_unplaced {src₁ src₂ : Bytes} {t₁ t₂ : Node}
    (read₁ : Tree.read src₁ = .ok t₁) (read₂ : Tree.read src₂ = .ok t₂)
    (same : t₁.unplaced = t₂.unplaced) (debug : Bool) :
    SameEnding (compileSource debug src₁) (compileSource debug src₂) := by
  have hends : mapEnds Failure.unplaced Result.unplaced (compile debug t₁)
      = mapEnds Failure.unplaced Result.unplaced (compile debug t₂) := by
    rw [← compile_unplaced, ← compile_unplaced, same]
  unfold compileSource
  simp only [read₁, read₂]
  cases h₁ : compile debug t₁ with
  | ok r₁ =>
    cases h₂ : compile debug t₂ with
    | ok r₂ =>
      rw [h₁, h₂, mapEnds_ok, mapEnds_ok] at hends
      have hresult : r₁.unplaced = r₂.unplaced := Except.ok.inj hends
      simp only [Result.unplaced, Result.mk.injEq] at hresult
      have hmodule : r₁.module = r₂.module := hresult.2
      exact .compiled hmodule (congrArg (·.print Op.text) hmodule)
    | error f₂ =>
      rw [h₁, h₂] at hends
      cases hends
  | error f₁ =>
    cases h₂ : compile debug t₂ with
    | ok r₂ =>
      rw [h₁, h₂] at hends
      cases hends
    | error f₂ =>
      rw [h₁, h₂, mapEnds_error, mapEnds_error] at hends
      exact .of_failures (Except.error.inj hends) (checkProgram_error (compile_error_iff.mp h₁))

/-- Layout and positions never influence code.  Texts whose trees are equal up to locations
are compiled to the same module text, or fail with the same kind of failure and the same
message.  The printed form of the tree of a text is such a text. -/
theorem compileSource_ignores_layout :
    (∀ (src₁ src₂ : Bytes) (t₁ t₂ : Node), Tree.read src₁ = .ok t₁ → Tree.read src₂ = .ok t₂ →
      t₁.unplaced = t₂.unplaced →
      ∀ debug : Bool, SameEnding (compileSource debug src₁) (compileSource debug src₂)) ∧
    ∀ (src : Bytes) (t : Node), Tree.read src = .ok t →
      ∀ debug : Bool, SameEnding (compileSource debug src) (compileSource debug t.format) := by
  refine ⟨fun src₁ src₂ t₁ t₂ read₁ read₂ same => sameEnding_of_unplaced read₁ read₂ same, ?_⟩
  intro src t hread
  obtain ⟨hformed, hnotes⟩ := Node.wellFormed_of_read hread
  obtain ⟨t', hread', hbare⟩ := hformed.read_format
  have hnotes' : t'.Unannotated := (Node.wellFormed_of_read hread').2
  have same : t.unplaced = t'.unplaced := by
    calc t.unplaced = t.bare := Node.unplaced_of_unannotated hnotes
      _ = t'.bare := hbare.symm
      _ = t'.unplaced := (Node.unplaced_of_unannotated hnotes').symm
  exact sameEnding_of_unplaced hread hread' same

/-- A program that does nothing. -/
def emptyProgram : Node :=
  .branch .globalDeclarations .nowhere [.branch .entryPointDeclaration .nowhere
    [.branch .void .nowhere [], .leaf .id (utf8 "m") .nowhere,
      .branch .formalParameterList .nowhere [], .branch .block .nowhere []]]

/-- The same program with bare symbols, a comment, and no blank that could be left out. -/
def tightText : Bytes :=
  utf8 "(globaldeclarations(entrypointdeclaration void;\n(id m)formalparameterlist block))"

/-- The program that does nothing, as it is printed and in another layout. -/
theorem compileSource_ignores_blanks :
    ∃ t₁ t₂, Tree.read emptyProgram.format = .ok t₁ ∧ Tree.read tightText = .ok t₂ ∧
      t₁.unplaced = t₂.unplaced ∧
      SameEnding (compileSource true emptyProgram.format) (compileSource true tightText) ∧
      SameEnding (compileSource true tightText) (compileSource true t₂.format) := by
  have hformed : emptyProgram.WellFormed none := by
    refine .branch rfl fun entry hentry => ?_
    rw [List.mem_singleton.mp hentry]
    refine .branch rfl fun part hpart => ?_
    simp only [List.mem_cons, List.not_mem_nil, or_false] at hpart
    rcases hpart with rfl | rfl | rfl | rfl
    · exact .branch rfl (by simp)
    · exact .text (.inl rfl)
    · exact .branch rfl (by simp)
    · exact .branch rfl (by simp)
  have htight : (Tree.read tightText).map Node.unplaced = .ok emptyProgram := by cbv
  obtain ⟨t₁, read₁, hbare⟩ := hformed.read_format
  have hplaced : t₁.unplaced = emptyProgram :=
    (Node.unplaced_of_unannotated (Node.wellFormed_of_read read₁).2).trans hbare
  cases read₂ : Tree.read tightText with
  | error e =>
    rw [read₂] at htight
    cases htight
  | ok t₂ =>
    rw [read₂] at htight
    have same : t₁.unplaced = t₂.unplaced := hplaced.trans (Except.ok.inj htight).symm
    exact ⟨t₁, t₂, read₁, rfl, same,
      compileSource_ignores_layout.1 _ _ t₁ t₂ read₁ read₂ same true,
      compileSource_ignores_layout.2 _ t₂ read₂ true⟩

end TreeWat.Compiler
