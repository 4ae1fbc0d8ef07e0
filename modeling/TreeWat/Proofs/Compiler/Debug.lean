import TreeWat.Proofs.Check.Notes
import TreeWat.Proofs.Compiler.Placement
import TreeWat.Proofs.Lower.Rows
import TreeWat.Proofs.Lower.Shown
import TreeWat.Proofs.Message
set_option autoImplicit false

/-!
# Compiler: the text of debug mode

With debug output a program is compiled to the same module with comments in it.  Whether
their rows can be told from the rest of the text depends on the texts of the program: a
string literal or a name may have line breaks in it, and a comment that shows such a text
goes on for several rows, of which only the first begins with semicolons.
-/

namespace TreeWat

namespace Node

theorem Unbroken.of_noted {n n' : Node} (h : n.Unbroken) (noted : n.Noted n') : n'.Unbroken := by
  intro m' hm'
  obtain ⟨m, hm, same⟩ := noted.exists_mem_preorder hm'
  rw [same.attr_eq]
  exact h m hm

theorem renderAll_eq_map (ns : List Node) : renderAll ns = ns.map render := by
  induction ns with
  | nil => rfl
  | cons n rest ih => rw [renderAll, ih, List.map_cons]

/-- Without line breaks in its texts an expression is shown on one line. -/
theorem Unbroken.render {n : Node} (h : n.Unbroken) : OneLine n.render := by
  induction n using Node.induction with
  | step n ih =>
    rcases n with ⟨kind, attr, loc, note, children⟩
    have each : ∀ c ∈ children, OneLine c.render :=
      fun c hc => ih c (mem_descendants_of_child hc) (h.child hc)
    have quote : OneLine (utf8 "\"") := by decide
    cases kind with
    | id | num =>
      rw [Node.render]
      exact h.attr
    | string =>
      rw [Node.render]
      exact oneLine_append.mpr ⟨oneLine_append.mpr ⟨quote, h.attr⟩, quote⟩
    | functionInvocation =>
      match children with
      | [] =>
        rw [Node.render]
        decide
      | [callee] =>
        rw [Node.render]
        exact oneLine_append.mpr ⟨(h.child List.mem_cons_self).attr, by decide⟩
      | callee :: ⟨listKind, listAttr, listLoc, listNote, args⟩ :: rest =>
        have hargs : OneLine (Bytes.join (utf8 ", ") (renderAll args)) := by
          refine oneLine_join (by decide) ?_
          rw [renderAll_eq_map, List.forall_mem_map]
          intro a ha
          have hlist : Unbroken ⟨listKind, listAttr, listLoc, listNote, args⟩ := h.child (by simp)
          exact ih a (mem_descendants_of_argument ha) (hlist.child ha)
        rw [Node.render]
        simp only [oneLine_append, (h.child List.mem_cons_self).attr, hargs, and_true, true_and]
        decide
    | binary op =>
      by_cases two : ∃ l r, children = [l, r]
      · obtain ⟨l, r, rfl⟩ := two
        have blank : OneLine (utf8 " ") := by decide
        rw [Node.render]
        simp [each l (by simp), each r (by simp), op.oneLine_text, blank]
      · rw [Node.render]
        · exact op.oneLine_text
        · exact fun l r h => two ⟨l, r, h⟩
    | unary op =>
      by_cases one : ∃ e, children = [e]
      · obtain ⟨e, rfl⟩ := one
        have sign : OneLine (Kind.unary op).symbol := by cases op <;> decide
        rw [Node.render]
        exact oneLine_append.mpr ⟨sign, each e (by simp)⟩
      · rw [Node.render]
        · exact Kind.oneLine_text _
        · exact fun e h => one ⟨e, h⟩
    | _ =>
      rw [Node.render]
      · exact Kind.oneLine_text _
      all_goals simp

end Node

namespace Compiler

open Wat (Op)

/-- The compiled program without the comments of its module. -/
def Result.uncommented (r : Result) : Result :=
  { r with module := r.module.uncommented }

/-- Both modes end alike. -/
theorem compile_terse (root : Node) :
    compile false root = (compile true root).map Result.uncommented := by
  unfold compile
  cases Check.checkProgram root with
  | error f => rfl
  | ok checked =>
    have hprogram : Lower.program ⟨checked.scopes, false⟩ checked.tree = _ :=
      Lower.program_terse ⟨checked.scopes, true⟩ checked.tree
    dsimp only
    rw [hprogram]
    cases Lower.program ⟨checked.scopes, true⟩ checked.tree <;> rfl

/-- Without line breaks in the texts of a program every comment is one row. -/
theorem staysComment_of_unbroken {root : Node} {r : Result}
    (compiled : compile true root = .ok r) (line : root.Unbroken) :
    ∀ text ∈ r.module.comments, Wat.StaysComment text := by
  have accepted := checkProgram_of_compile compiled
  have lowered := program_of_compile compiled
  have unbroken := line.of_noted (Check.noted_of_checkProgram accepted)
  intro text htext
  obtain ⟨n, hn, rfl⟩ := Lower.program_shows lowered text htext
  exact Wat.staysComment_of_oneLine
    (Node.Unbroken.render fun m hm => unbroken m (Node.mem_preorder_trans hn hm))

/-- The comment rows of the text of debug mode.

Both modes compile the same programs, and the modules differ in comments only.  Leaving out the
comment rows of the text of debug mode gives the text of the other mode exactly if the latter
has no comment rows of its own, every comment is comment rows throughout, and no second arm of
a conditional is there for its comments only.  All of this holds of a program in whose texts
there are no line breaks and none of whose statements is a string literal. -/
theorem comment_rows_of_debug {src : Bytes} {r : Result}
    (compiled : compileSource true src = .ok r) :
    compileSource false src = .ok r.uncommented ∧
      (withoutCommentRows r.wat = r.uncommented.wat ↔
        withoutCommentRows r.uncommented.wat = r.uncommented.wat ∧
          (∀ text ∈ r.module.comments, Wat.StaysComment text) ∧ r.module.ArmsKept) ∧
      ∀ root, Tree.read src = .ok root → root.Unbroken → root.StringsUsed →
        withoutCommentRows r.wat = r.uncommented.wat := by
  obtain ⟨root, hread, hcompile⟩ := compileSource_ok_iff.mp compiled
  have terse : compile false root = .ok r.uncommented := by
    rw [compile_terse, hcompile]
    rfl
  have rows := r.module.withoutCommentRows_print_iff Op.text
  refine ⟨compileSource_ok_iff.mpr ⟨root, hread, terse⟩, rows, ?_⟩
  intro root' hread' line used
  obtain rfl : root = root' := Except.ok.inj (hread.symm.trans hread')
  have accepted := checkProgram_of_compile hcompile
  have lowered := program_of_compile hcompile
  obtain ⟨m, s, hmodule, hcode⟩ := Lower.moduleCode_of_checkProgram accepted true
  obtain rfl : r.module = m := Except.ok.inj (lowered.symm.trans (Lower.program_ok hmodule))
  have noRows : withoutCommentRows r.uncommented.wat = r.uncommented.wat :=
    Wat.rest_of_plain (hcode.allPlain line)
  exact rows.mpr ⟨noRows, staysComment_of_unbroken hcompile line, hcode.armsKept used⟩

/-- A program that prints a text of two lines:

    void main() { prints("a
    b"); } -/
def twoLines : Node :=
  let node (kind : Kind) (children : List Node) : Node := .branch kind .nowhere children
  let leaf (kind : Kind) (text : Bytes) : Node := .leaf kind text .nowhere
  node .globalDeclarations [
    node .entryPointDeclaration [node .void [], leaf .id (utf8 "main"),
      node .formalParameterList [],
      node .block [
        node .statementExpression [
          node .functionInvocation [leaf .id (utf8 "prints"),
            node .argumentList [leaf .string (utf8 "a\nb")]]]]]]

/-- The second row of the comment that shows the call is no comment. -/
theorem twoLines_shown :
    ∃ r, compileSource true twoLines.format = .ok r ∧
      compileSource false twoLines.format = .ok r.uncommented ∧
      withoutCommentRows r.wat ≠ r.uncommented.wat := by
  have formed : twoLines.WellFormed none := by decide +kernel
  obtain ⟨t, hread, hbare⟩ := formed.read_format
  have same : t.unplaced = twoLines :=
    (Node.unplaced_of_unannotated (Node.wellFormed_of_read hread).2).trans hbare
  have shown : ((compile true twoLines).map fun r => r.module.comments).toOption =
      some [utf8 "prints(\"a\nb\")"] := by decide +kernel
  rw [← same, compile_unplaced] at shown
  cases hcompile : compile true t with
  | error f =>
    rw [hcompile] at shown
    cases shown
  | ok r =>
    rw [hcompile] at shown
    have hcomments : r.module.comments = [utf8 "prints(\"a\nb\")"] := Option.some.inj shown
    have compiled := compileSource_ok_iff.mpr ⟨t, hread, hcompile⟩
    obtain ⟨terse, rows, -⟩ := comment_rows_of_debug compiled
    refine ⟨r, compiled, terse, fun sameText => ?_⟩
    have stays := (rows.mp sameText).2.1 _ (hcomments ▸ List.mem_singleton_self _)
    exact absurd stays (by decide)

end Compiler

end TreeWat
