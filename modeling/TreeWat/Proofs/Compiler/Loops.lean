import Mathlib.Data.List.Nodup
import TreeWat.Proofs.Check.Loops
import TreeWat.Proofs.Compiler
import TreeWat.Proofs.Lower.Loops
set_option autoImplicit false

/-!
# Compiler: checker and generator agree on loops

The checker finds the loops around a statement by a look through its stack of scopes.  The
generator knows nothing of these scopes: it counts labels through the whole program and
hands a list of them down, which it empties at each function.  Nothing but the order in
which both walk over the tree keeps the two in step.

Both are compared here with the text, which says what they should agree on: the number of
each `while` statement and the loops around each statement (`Node.programSites`).  It follows
that a `break` leaves the same loop in the module as it does for the checker.
-/

namespace TreeWat

/-- No scope belongs to two loops. -/
theorem Scopes.loopScopes_nodup (scopes : Scopes) : scopes.loopScopes.Nodup := by
  refine List.Nodup.map (fun i j h => ScopeId.opened.inj h) ?_
  exact List.nodup_range.filter _

namespace Compiler

open Check (CheckedProgram Entered LoopsOf)
open Lower (Jump breakLabel funcJumps loopLabel siteJumps)

/-- The branch of a `break` statement.  It goes to the block of the loop next around the
statement, which is the block next around the branch, and the checker left a note of the
scope of this loop. -/
inductive Leaves (scopes : Scopes) : Bytes × List Bytes → Site → Prop where
  | intro {site num outer id} (inside : site.loops = num :: outer)
      (loop : scopes.loopScopes[num]? = some id) (noted : site.node.note = some ⟨[], some id⟩) :
      Leaves scopes (breakLabel num, breakLabel num :: outer.map breakLabel) site

/-- The checker and the generator agree on the loops of a program: on those that the text
shows.  Here `fs` are the functions of the user in the module, and the logs list the
statements that were entered. -/
structure LoopsAgree (root : Node) (checked : CheckedProgram) (fs : List (Wat.Func Wat.Op))
    (checkLog : Check.Log) (lowerLog : Lower.Log) : Prop where
  /-- The notes change nothing about what the text says. -/
  outline : checked.tree.programSites.map Site.outline = root.programSites.map Site.outline
  /-- The `while` statements are numbered on through all functions, in source order. -/
  numbers : whileNumbers root.programSites = List.range (Node.whilesOf root.children)
  /-- The jumps come from the statements, in source order. -/
  jumps : funcJumps fs = checked.tree.programSites.flatMap siteJumps
  /-- Each number is that of one block, and one loop is directly in it. -/
  blocks : (funcJumps fs).filterMap Jump.block? =
    (List.range (Node.whilesOf root.children)).map fun num => (breakLabel num, [loopLabel num])
  blockLabels : (((funcJumps fs).filterMap Jump.block?).map Prod.fst).Nodup
  /-- There are no other loops. -/
  loops : (funcJumps fs).filterMap Jump.loop? =
    (List.range (Node.whilesOf root.children)).map loopLabel
  loopLabels : ((funcJumps fs).filterMap Jump.loop?).Nodup
  /-- The branches are those of the `break` statements. -/
  breaks : List.Forall₂ (Leaves checked.scopes) ((funcJumps fs).filterMap Jump.br?)
    (checked.tree.programSites.filter (·.node.kind = .break))
  /-- The checker opens one scope for each loop. -/
  scopes : checked.scopes.loopScopes.length = Node.whilesOf root.children
  distinct : checked.scopes.loopScopes.Nodup
  /-- The checker enters each statement inside the loops around it. -/
  checker : List.Forall₂ (Entered checked.scopes) checkLog checked.tree.programSites
  /-- So does the generator. -/
  generator : lowerLog = checked.tree.programSites.map fun site => (site.place, site.loops)
  /-- On entry to each statement, both have the same number of loops on their stacks. -/
  depth : lowerLog.map (fun entry => (entry.1, entry.2.length)) =
    checkLog.map fun entry => (entry.1, entry.2.openLoops.length)

/-! ## Comparison with the text -/

section Comparison

variable {scopes : Scopes}

theorem whileNumbers_of_outline {ss ss' : List Site}
    (outline : ss'.map Site.outline = ss.map Site.outline) :
    whileNumbers ss' = whileNumbers ss := by
  have numbers : ∀ ss : List Site, whileNumbers ss =
      ((ss.map Site.outline).filter fun o => o.2.1 = .while).map fun o => o.2.2.1 := by
    intro ss
    rw [List.filter_map, List.map_map]
    rfl
  rw [numbers, numbers, outline]

theorem depth_of_entered {log : Check.Log} {sites : List Site}
    (entered : List.Forall₂ (Entered scopes) log sites) :
    (log.map fun entry => (entry.1, entry.2.openLoops.length)) =
      sites.map fun site => (site.place, site.loops.length) := by
  induction entered with
  | nil => rfl
  | @cons entry site _ _ first _ ih =>
    have hlength : entry.2.openLoops.length = site.loops.length := by
      simpa using congrArg List.length first.loops
    rw [List.map_cons, List.map_cons, ih, first.place, hlength]

/-- The branches among the jumps of statements are those of the `break` statements, if each
of these was entered inside a loop. -/
theorem leaves_of_entered {log : Check.Log} {sites : List Site}
    (entered : List.Forall₂ (Entered scopes) log sites) :
    List.Forall₂ (Leaves scopes) ((sites.flatMap siteJumps).filterMap Jump.br?)
      (sites.filter (·.node.kind = .break)) := by
  induction entered with
  | nil => exact .nil
  | @cons entry site _ rest first _ ih =>
    rw [List.flatMap_cons, List.filterMap_append]
    by_cases isBreak : site.node.kind = .break
    · obtain ⟨num, outer, id, inside, loop, noted⟩ := first.noted isBreak
      have hjumps : siteJumps site =
          [.br (breakLabel num) ((num :: outer).map breakLabel)] := by
        unfold siteJumps
        rw [isBreak, inside]
      rw [List.filter_cons_of_pos (by simpa using isBreak), hjumps]
      exact .cons (.intro inside loop noted) ih
    · have hjumps : (siteJumps site).filterMap Jump.br? = [] := by
        rcases site with ⟨place, ⟨kind, attr, loc, note, children⟩, number, loops⟩
        cases kind
        case «break» => exact absurd rfl isBreak
        all_goals rfl
      rw [List.filter_cons_of_neg (by simpa using isBreak), hjumps]
      exact ih

end Comparison

/-- The checker and the generator agree on the loops of each accepted program. -/
theorem loops_agree {root : Node} {checked : CheckedProgram}
    (accepted : Check.checkProgram root = .ok checked) (debug : Bool) :
    ∃ m fs checkLog lowerLog,
      compile debug root = .ok ⟨checked, m⟩ ∧ m.funcs = Lower.library ++ fs ∧
      Check.tracedCheckProgram root = (.ok checked, checkLog) ∧
      Lower.tracedProgram ⟨checked.scopes, debug⟩ checked.tree = .ok (m, lowerLog) ∧
      LoopsAgree root checked fs checkLog lowerLog := by
  have resolved := Check.programResolved_of_checkProgram accepted
  obtain ⟨checkLog, hchecked, entered, hscopes⟩ := Check.entered_of_checkProgram accepted
  obtain ⟨m, hprogram⟩ := Lower.program_of_checkProgram accepted debug
  obtain ⟨lowerLog, htraced⟩ := Lower.tracedProgram_of_program hprogram
  obtain ⟨fs, hfuncs, lowered⟩ := Lower.lowered_of_tracedProgram resolved.isBuiltins htraced
  have hcompile : compile debug root = .ok ⟨checked, m⟩ := by
    unfold compile
    rw [accepted]
    dsimp only
    rw [hprogram]
  have outline := resolved.outline
  have numbers := Node.programSites_numbers root
  have numbers' : whileNumbers checked.tree.programSites =
      List.range (Node.whilesOf root.children) := (whileNumbers_of_outline outline).trans numbers
  have blocks := Lower.blocks_siteJumps checked.tree.programSites
  have loops := Lower.loops_siteJumps checked.tree.programSites
  rw [← lowered.jumps, numbers'] at blocks loops
  refine ⟨m, fs, checkLog, lowerLog, hcompile, hfuncs, hchecked, htraced, ?_⟩
  exact {
    outline, numbers, blocks, loops
    jumps := lowered.jumps
    blockLabels := by
      rw [blocks, List.map_map]
      exact List.nodup_range.map Lower.breakLabel_injective
    loopLabels := by
      rw [loops]
      exact List.nodup_range.map Lower.loopLabel_injective
    breaks := by
      rw [lowered.jumps]
      exact leaves_of_entered entered
    scopes := hscopes.trans resolved.whilesOf
    distinct := checked.scopes.loopScopes_nodup
    checker := entered
    generator := lowered.log
    depth := by
      rw [depth_of_entered entered, lowered.log, List.map_map]
      rfl }

/-- A loop in a loop, and a loop behind them:

    void main() {
      while (true) { while (false) break; break; }
      while (true) break;
    } -/
def loopProgram : Node :=
  let node (kind : Kind) (children : List Node) : Node := .branch kind .nowhere children
  node .globalDeclarations [
    node .entryPointDeclaration [node .void [], .leaf .id (utf8 "main") .nowhere,
      node .formalParameterList [],
      node .block [
        node .while [node .trueLiteral [], node .block [
          node .while [node .falseLiteral [], node .break []],
          node .break []]],
        node .while [node .trueLiteral [], node .break []]]]]

/-- What is agreed on for three loops, one of them in another. -/
theorem loops_agree_nested :
    Node.whilesOf loopProgram.children = 3 ∧
      ∃ checked, Check.checkProgram loopProgram = .ok checked ∧
      ∃ m fs checkLog lowerLog,
        compile true loopProgram = .ok ⟨checked, m⟩ ∧ m.funcs = Lower.library ++ fs ∧
        Check.tracedCheckProgram loopProgram = (.ok checked, checkLog) ∧
        Lower.tracedProgram ⟨checked.scopes, true⟩ checked.tree = .ok (m, lowerLog) ∧
        LoopsAgree loopProgram checked fs checkLog lowerLog := by
  obtain ⟨checked, accepted⟩ : ∃ checked, Check.checkProgram loopProgram = .ok checked :=
    Lower.exists_checked_of_isOk (by decide +kernel)
  exact ⟨rfl, checked, accepted, loops_agree accepted true⟩

example : (loopProgram.programSites.filter (·.node.kind = .break)).map Site.loops =
    [[1, 0], [0], [2]] := by decide

end Compiler

end TreeWat
