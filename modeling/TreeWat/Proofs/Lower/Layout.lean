import Mathlib.Algebra.GroupWithZero.Nat
import TreeWat.Proofs.Lower.Valid
set_option autoImplicit false

/-!
# Lower: where string literals lie and which calls print them

The literals of a module are the two words of the runtime library and, in source order,
the arguments of the calls that mean the `prints` of the library.  Each call has a literal
of its own, which lies behind the literals of the calls before it, and pushes the place
and the length of this literal.

The condition of a loop is lowered twice.  That duplicates no literal, because an
expression with a value calls `prints` nowhere.
-/

namespace TreeWat

/-! ## Calls in a program -/

/-- Whether a node of this kind stands for itself: what a tree may have below it is not
part of the program. -/
def Kind.isLeaf : Kind → Bool
  | .id | .num | .string | .trueLiteral | .falseLiteral => true
  | .int | .boolean | .void => true
  | .nullStatement | .break => true
  | _ => false

mutual

/-- The nodes of a tree that the checker visits, parents before children. -/
def Node.visited (n : Node) : List Node :=
  match n with
  | ⟨kind, attr, loc, note, children⟩ =>
    ⟨kind, attr, loc, note, children⟩ :: if kind.isLeaf then [] else Node.visitedAll children

/-- The nodes of a list of trees that the checker visits. -/
def Node.visitedAll : List Node → List Node
  | [] => []
  | n :: rest => n.visited ++ Node.visitedAll rest

end

/-- The literal that a node prints, if it is a call of the library's `prints`. -/
def Scopes.printedLiteral? (scopes : Scopes) (n : Node) : Option Bytes :=
  match n.kind, n.children with
  | .functionInvocation, [callee, argList] =>
    if callee.kind = .id ∧ callee.attr = utf8 "prints" then
      match scopes.resolveCall callee.attr n.loc with
      | .ok (.builtins, _) => argList.children.head?.map Node.attr
      | _ => none
    else none
  | _, _ => none

/-- The literals that the calls in a tree print, in source order. -/
def Scopes.printedLiterals (scopes : Scopes) (n : Node) : List Bytes :=
  n.visited.filterMap scopes.printedLiteral?

/-- The literals that the calls in a list of trees print. -/
def Scopes.printedLiteralsAll (scopes : Scopes) (ns : List Node) : List Bytes :=
  (Node.visitedAll ns).filterMap scopes.printedLiteral?

section PrintedLiterals

variable {scopes : Scopes} {kind : Kind} {attr : Bytes} {loc : Location}
  {note : Option Annotation} {children : List Node}

@[simp] theorem printedLiteralsAll_nil : scopes.printedLiteralsAll [] = [] := by
  simp [Scopes.printedLiteralsAll, Node.visitedAll]

@[simp] theorem printedLiteralsAll_cons {n : Node} {rest : List Node} :
    scopes.printedLiteralsAll (n :: rest) =
      scopes.printedLiterals n ++ scopes.printedLiteralsAll rest := by
  simp [Scopes.printedLiteralsAll, Scopes.printedLiterals, Node.visitedAll]

theorem printedLiterals_cases :
    scopes.printedLiterals ⟨kind, attr, loc, note, children⟩ =
      (scopes.printedLiteral? ⟨kind, attr, loc, note, children⟩).toList ++
        if kind.isLeaf then [] else scopes.printedLiteralsAll children := by
  unfold Scopes.printedLiterals Scopes.printedLiteralsAll
  rw [Node.visited, ← List.singleton_append, List.filterMap_append]
  cases kind.isLeaf <;> cases hown : scopes.printedLiteral? ⟨kind, attr, loc, note, children⟩ <;>
    simp [hown]

theorem printedLiteral?_other {n : Node} (other : n.kind ≠ .functionInvocation) :
    scopes.printedLiteral? n = none := by
  unfold Scopes.printedLiteral?
  split
  · exact absurd ‹n.kind = _› other
  · rfl

theorem printedLiterals_leaf {n : Node} (isLeaf : n.kind.isLeaf = true) :
    scopes.printedLiterals n = [] := by
  rcases n with ⟨kind, attr, loc, note, children⟩
  have other : kind ≠ .functionInvocation := by
    rintro rfl
    cases isLeaf
  rw [printedLiterals_cases, printedLiteral?_other other, if_pos isLeaf]
  rfl

@[simp] theorem printedLiterals_id :
    scopes.printedLiterals ⟨.id, attr, loc, note, children⟩ = [] :=
  printedLiterals_leaf rfl

theorem printedLiterals_branch (inner : kind.isLeaf = false)
    (other : kind ≠ .functionInvocation) :
    scopes.printedLiterals ⟨kind, attr, loc, note, children⟩ =
      scopes.printedLiteralsAll children := by
  rw [printedLiterals_cases, printedLiteral?_other other, inner]
  rfl

/-- A parameter or a declaration calls nothing. -/
theorem printedLiterals_binding {n : Node} {v : Bytes × Ty} (binds : n.binding? = some v) :
    scopes.printedLiterals n = [] := by
  obtain ⟨name, ty⟩ := v
  obtain ⟨t, id, hchildren, hid, htype, -⟩ := Node.binding?_eq_some.mp binds
  rcases n with ⟨kind, attr, loc, note, children⟩
  obtain rfl : children = [t, id] := hchildren
  have ht : t.kind.isLeaf = true ∧ t.kind ≠ .id := by
    revert htype
    cases t.kind <;> simp [Kind.valueType?, Kind.isLeaf]
  have hnone : scopes.printedLiteral? ⟨kind, attr, loc, note, [t, id]⟩ = none := by
    unfold Scopes.printedLiteral?
    split
    · rename_i hchildren
      cases hchildren
      rw [if_neg fun h => ht.2 h.1]
    · rfl
  rw [printedLiterals_cases, hnone, printedLiteralsAll_cons, printedLiteralsAll_cons,
    printedLiterals_leaf ht.1, printedLiterals_leaf (by rw [hid]; rfl)]
  simp

end PrintedLiterals

namespace Wat

/-! ## Layout of literals -/

namespace Literals

/-- Literals behind those that are there. -/
def internAll (t : Literals) (lits : List Bytes) : Literals :=
  lits.foldl intern t

@[simp] theorem internAll_nil (t : Literals) : t.internAll [] = t := rfl

theorem internAll_append (t : Literals) (lits₁ lits₂ : List Bytes) :
    t.internAll (lits₁ ++ lits₂) = (t.internAll lits₁).internAll lits₂ :=
  List.foldl_append

theorem internAll_size (t : Literals) (lits : List Bytes) :
    (t.internAll lits).size = t.size + (lits.map literalLength).sum := by
  induction lits generalizing t with
  | nil => simp
  | cons raw rest ih =>
    show ((t.intern raw).internAll rest).size = _
    rw [ih, List.map_cons, List.sum_cons, ← Nat.add_assoc]
    rfl

end Literals

/-- Where the literal with the given number begins if the literals lie one behind the
other. -/
def offsetOf (lits : List Bytes) (i : Nat) : Nat :=
  ((lits.take i).map literalLength).sum

theorem offsetOf_succ {lits : List Bytes} {i : Nat} {raw : Bytes} (h : lits[i]? = some raw) :
    offsetOf lits (i + 1) = offsetOf lits i + literalLength raw := by
  unfold offsetOf
  rw [List.take_add_one, h]
  simp

theorem offsetOf_mono (lits : List Bytes) {i j : Nat} (le : i ≤ j) :
    offsetOf lits i ≤ offsetOf lits j := by
  obtain ⟨k, rfl⟩ := Nat.exists_eq_add_of_le le
  unfold offsetOf
  rw [List.take_add, List.map_append, List.sum_append]
  omega

theorem offsetOf_length (lits : List Bytes) :
    offsetOf lits lits.length = (lits.map literalLength).sum := by
  rw [offsetOf, List.take_length]

theorem offsetOf_cons_succ (raw : Bytes) (lits : List Bytes) (i : Nat) :
    offsetOf (raw :: lits) (i + 1) = literalLength raw + offsetOf lits i := by
  simp [offsetOf]

/-- What is laid out from the given place on, one entry for each literal. -/
def layOut {α : Type} (entry : Nat → Bytes → α) : Nat → List Bytes → List α
  | _, [] => []
  | place, raw :: rest => entry place raw :: layOut entry (place + literalLength raw) rest

section LayOut

variable {α : Type} {entry : Nat → Bytes → α}

theorem layOut_length (place : Nat) (lits : List Bytes) :
    (layOut entry place lits).length = lits.length := by
  induction lits generalizing place with
  | nil => rfl
  | cons raw rest ih => rw [layOut, List.length_cons, List.length_cons, ih]

theorem layOut_append (place : Nat) (lits₁ lits₂ : List Bytes) :
    layOut entry place (lits₁ ++ lits₂) =
      layOut entry place lits₁ ++ layOut entry (place + (lits₁.map literalLength).sum) lits₂ := by
  induction lits₁ generalizing place with
  | nil => simp [layOut]
  | cons raw rest ih => simp [layOut, ih, Nat.add_assoc]

theorem layOut_getElem? (place : Nat) (lits : List Bytes) (i : Nat) :
    (layOut entry place lits)[i]? =
      lits[i]?.map fun raw => entry (place + offsetOf lits i) raw := by
  induction lits generalizing place i with
  | nil => rfl
  | cons raw rest ih =>
    cases i with
    | zero => simp [layOut, offsetOf]
    | succ i =>
      rw [layOut, List.getElem?_cons_succ, ih, List.getElem?_cons_succ, offsetOf_cons_succ,
        Nat.add_assoc]

/-- Literals become data one behind the other. -/
theorem Literals.internAll_data (t : Literals) (lits : List Bytes) :
    (t.internAll lits).data =
      t.data ++ layOut (fun place raw => ⟨place, escapeLiteral raw⟩) t.size lits := by
  induction lits generalizing t with
  | nil => simp [layOut]
  | cons raw rest ih =>
    show ((t.intern raw).internAll rest).data = _
    rw [ih, layOut]
    simp [intern]

end LayOut

/-- The pages that hold a number of bytes are the fewest that do. -/
theorem pagesFor_le_iff (n k : Nat) : pagesFor n ≤ k ↔ n ≤ k * pageSize := by
  unfold pagesFor pageSize
  omega

end Wat

namespace Lower

open Wat (Code Op Instr layOut offsetOf literalLength)

/-! ## Calls in generated code -/

mutual

/-- For each call of the library's `prints` in a piece of code, in order, the two
instructions directly in front of it; `before` is what stands in front of the code, last
instruction first. -/
def printOperands (before : Code) : Code → List Code
  | [] => []
  | i :: rest => printOperandsAt before i ++ printOperands (i :: before) rest

/-- The same for a single instruction. -/
def printOperandsAt (before : Code) : Instr Op → List Code
  | .op (.call name) =>
    if name = libraryName (utf8 "prints") then [(before.take 2).reverse] else []
  | .op _ => []
  | .comment _ => []
  | .block _ body => printOperands [] body
  | .loop _ body => printOperands [] body
  | .cond whenTrue whenFalse => printOperands [] whenTrue ++ printOperands [] whenFalse

end

theorem printOperands_append (before code₁ code₂ : Code) :
    printOperands before (code₁ ++ code₂) =
      printOperands before code₁ ++ printOperands (code₁.reverse ++ before) code₂ := by
  induction code₁ generalizing before with
  | nil => simp [printOperands]
  | cons i rest ih => simp [printOperands, ih]

/-- What a call of `prints` pushes for a literal at the given place. -/
def literalOperands (place : Nat) (raw : Bytes) : Code :=
  [.op (.number place), .op (.number (literalLength raw))]

/-- Code that takes the literals from `s` to `s'`: it puts the given ones behind those
that are there, and its calls of `prints` push the places and lengths of these, in this
order. -/
structure Emits (s : State) (lits : List Bytes) (code : Code) (s' : State) : Prop where
  literals : s'.literals = s.literals.internAll lits
  operands : ∀ before, printOperands before code =
    layOut literalOperands s.literals.size lits

namespace Emits

variable {s s₁ s' : State} {lits lits₁ lits₂ : List Bytes} {code code₁ code₂ : Code}

theorem nil (s : State) : Emits s [] [] s :=
  ⟨rfl, fun _ => rfl⟩

theorem append (h₁ : Emits s lits₁ code₁ s₁) (h₂ : Emits s₁ lits₂ code₂ s') :
    Emits s (lits₁ ++ lits₂) (code₁ ++ code₂) s' where
  literals := by rw [h₂.literals, h₁.literals, Wat.Literals.internAll_append]
  operands before := by
    rw [printOperands_append, h₁.operands, h₂.operands, h₁.literals,
      Wat.Literals.internAll_size, Wat.layOut_append]

/-- An instruction that calls nothing, behind code. -/
theorem snoc (h : Emits s lits code s') {i : Instr Op}
    (silent : ∀ before, printOperandsAt before i = []) : Emits s lits (code ++ [i]) s' where
  literals := h.literals
  operands before := by
    rw [printOperands_append, h.operands]
    simp [printOperands, silent]

theorem cons (h : Emits s lits code s') {i : Instr Op}
    (silent : ∀ before, printOperandsAt before i = []) : Emits s lits (i :: code) s' where
  literals := h.literals
  operands before := by
    rw [printOperands, h.operands, silent]
    rfl

theorem cond (h₁ : Emits s lits₁ code₁ s₁) (h₂ : Emits s₁ lits₂ code₂ s') :
    Emits s (lits₁ ++ lits₂) [.cond code₁ code₂] s' where
  literals := (h₁.append h₂).literals
  operands before := by
    have hboth := (h₁.append h₂).operands []
    rw [printOperands_append, h₁.operands, h₂.operands] at hboth
    rw [printOperands, printOperandsAt, h₁.operands, h₂.operands, hboth]
    simp [printOperands]

theorem block (h : Emits s lits code s') (label : Bytes) :
    Emits s lits [.block label code] s' where
  literals := h.literals
  operands before := by
    simp [printOperands, printOperandsAt, h.operands]

theorem loop (h : Emits s lits code s') (label : Bytes) :
    Emits s lits [.loop label code] s' where
  literals := h.literals
  operands before := by
    simp [printOperands, printOperandsAt, h.operands]

theorem commented (h : Emits s lits code s') {code' : Code} (comment : Commented code code') :
    Emits s lits code' s' := by
  cases comment with
  | bare => exact h
  | comment text => exact h.snoc fun _ => rfl

end Emits

/-! ## Expressions -/

section Expressions

variable {scopes : Scopes} {tag : Bytes} {Γ : Names}

theorem loadOp_silent (tag : Bytes) (Γ : Names) (name : Bytes) (before : Code) :
    printOperandsAt before (.op (loadOp tag Γ name)) = [] := by
  unfold loadOp
  split <;> rfl

theorem storeOp_silent (tag : Bytes) (Γ : Names) (name : Bytes) (before : Code) :
    printOperandsAt before (.op (storeOp tag Γ name)) = [] := by
  unfold storeOp
  split <;> rfl

/-- A function that takes values is not the library's `prints`. -/
theorem callOps_silent {name : Bytes} {sig : Signature} (resolved : Γ.func? name = some sig)
    (valued : sig.Valued) (s : State) : Emits s [] (callOps Γ name) s := by
  have hcall : ∀ target, target ≠ libraryName (utf8 "prints") →
      ∀ before, printOperandsAt before (.op (.call target)) = [] := by
    intro target hne before
    rw [printOperandsAt, if_neg hne]
  unfold callOps
  cases hfunc : Γ.funcs.lookup name with
  | some own =>
    exact (Emits.nil s).cons (hcall _ (libraryName_ne_globalName _ _).symm)
  | none =>
    have hname : libraryName name ≠ libraryName (utf8 "prints") := by
      intro heq
      obtain rfl : name = utf8 "prints" := List.append_cancel_left heq
      unfold Names.func? at resolved
      rw [hfunc, Option.none_or] at resolved
      cases resolved
      exact absurd (valued.params .string List.mem_cons_self) (by decide)
    split
    · exact (Emits.nil s).cons (hcall _ (libraryName_ne_globalName _ _).symm)
    · split
      · exact ((Emits.nil s).cons fun _ => rfl).cons (hcall _ hname)
      · exact (Emits.nil s).cons (hcall _ hname)

/-- A call of a function that takes values prints no literal itself. -/
theorem printedLiteral?_valued (funcs : scopes.globals.funcs = Γ.funcs) {n callee argList : Node} {sig : Signature}
    (children : n.children = [callee, argList]) (resolved : Γ.func? callee.attr = some sig)
    (valued : sig.Valued) : scopes.printedLiteral? n = none := by
  unfold Scopes.printedLiteral?
  split
  · rename_i hchildren
    rw [children] at hchildren
    cases hchildren
    split
    · rename_i hname
      unfold Names.func? at resolved
      unfold Scopes.resolveCall Scope.func?
      rw [funcs]
      cases hfunc : Γ.funcs.lookup callee.attr with
      | some own => rfl
      | none =>
        rw [hfunc, Option.none_or, hname.2] at resolved
        cases resolved
        exact absurd (valued.params .string List.mem_cons_self) (by decide)
    · rfl
  · rfl

theorem printedLiterals_call (funcs : scopes.globals.funcs = Γ.funcs) {attr name : Bytes}
    {loc nameLoc : Location} {note nameNote : Option Annotation} {nameCh args : List Node}
    {listAttr : Bytes} {listLoc : Location} {listNote : Option Annotation} {sig : Signature}
    (resolved : Γ.func? name = some sig) (valued : sig.Valued) :
    scopes.printedLiterals ⟨.functionInvocation, attr, loc, note,
        [⟨.id, name, nameLoc, nameNote, nameCh⟩,
          ⟨.argumentList, listAttr, listLoc, listNote, args⟩]⟩ =
      scopes.printedLiteralsAll args := by
  have hlist : scopes.printedLiterals ⟨.argumentList, listAttr, listLoc, listNote, args⟩ =
      scopes.printedLiteralsAll args := printedLiterals_branch rfl (by simp)
  rw [printedLiterals_cases, printedLiteral?_valued funcs rfl resolved valued]
  simp [Kind.isLeaf, hlist]

theorem printedLiterals_prints (builtins : scopes.builtins = .builtins)
    (library : scopes.globals.funcs.lookup (utf8 "prints") = none) {attr listAttr raw : Bytes}
    {loc nameLoc listLoc rawLoc : Location} {note nameNote listNote rawNote : Option Annotation}
    {nameCh rawCh : List Node} :
    scopes.printedLiterals ⟨.functionInvocation, attr, loc, note,
        [⟨.id, utf8 "prints", nameLoc, nameNote, nameCh⟩,
          ⟨.argumentList, listAttr, listLoc, listNote, [⟨.string, raw, rawLoc, rawNote, rawCh⟩]⟩]⟩ =
      [raw] := by
  have hresolve : scopes.resolveCall (utf8 "prints") loc =
      .ok (.builtins, ⟨[.string], .void⟩) := by
    unfold Scopes.resolveCall Scope.func?
    rw [library, builtins]
    rfl
  have hlist : scopes.printedLiterals
      ⟨.argumentList, listAttr, listLoc, listNote, [⟨.string, raw, rawLoc, rawNote, rawCh⟩]⟩ =
      [] := by
    rw [printedLiterals_branch rfl (by simp), printedLiteralsAll_cons, printedLiterals_leaf rfl,
      printedLiteralsAll_nil]
    rfl
  rw [printedLiterals_cases]
  simp [Scopes.printedLiteral?, hresolve, Kind.isLeaf, hlist]

mutual

/-- An expression with a value prints no literal. -/
theorem ExprCode.printsNothing (funcs : scopes.globals.funcs = Γ.funcs) {n : Node} {ty : Ty}
    {s s' : State} {code : Code} (h : ExprCode tag Γ n ty s code s')
    (hasValue : ty.hasValue = true) : scopes.printedLiterals n = [] := by
  cases h with
  | name | number | trueLiteral | falseLiteral | string => exact printedLiterals_leaf rfl
  | assignment declared right =>
    rw [printedLiterals_branch rfl (by simp)]
    simp [right.printsNothing funcs hasValue]
  | arithmetic isArith rule first second =>
    have hoperand := (hasValue_of_typing isArith rule).1
    rw [printedLiterals_branch rfl (by simp)]
    simp [first.printsNothing funcs hoperand, second.printsNothing funcs hoperand]
  | and first second =>
    rw [printedLiterals_branch rfl (by simp)]
    simp [first.printsNothing funcs rfl, second.printsNothing funcs rfl]
  | or first second =>
    rw [printedLiterals_branch rfl (by simp)]
    simp [first.printsNothing funcs rfl, second.printsNothing funcs rfl]
  | negation operand =>
    rw [printedLiterals_branch rfl (by simp)]
    simp [operand.printsNothing funcs rfl]
  | complement operand =>
    rw [printedLiterals_branch rfl (by simp)]
    simp [operand.printsNothing funcs rfl]
  | call resolved valued arguments =>
    rw [printedLiterals_call funcs resolved valued]
    exact arguments.printsNothing funcs valued.params
  | print => cases hasValue

theorem ArgsCode.printsNothing (funcs : scopes.globals.funcs = Γ.funcs) {args : List Node}
    {tys : List Ty} {s s' : State} {code : Code} (h : ArgsCode tag Γ args tys s code s')
    (hasValue : ∀ ty ∈ tys, ty.hasValue = true) : scopes.printedLiteralsAll args = [] := by
  cases h with
  | nil => exact printedLiteralsAll_nil
  | cons first commented others =>
    rw [printedLiteralsAll_cons, first.printsNothing funcs (hasValue _ List.mem_cons_self),
      others.printsNothing funcs fun ty hty => hasValue ty (List.mem_cons_of_mem _ hty)]
    rfl

end

mutual

/-- The code of an expression emits the literals that the expression prints. -/
theorem ExprCode.emits (builtins : scopes.builtins = .builtins)
    (funcs : scopes.globals.funcs = Γ.funcs) {n : Node} {ty : Ty} {s s' : State} {code : Code}
    (h : ExprCode tag Γ n ty s code s') : Emits s (scopes.printedLiterals n) code s' := by
  cases h with
  | name declared =>
    rw [printedLiterals_leaf rfl]
    exact (Emits.nil s).cons (loadOp_silent tag Γ _)
  | number | trueLiteral | falseLiteral =>
    rw [printedLiterals_leaf rfl]
    exact (Emits.nil s).cons fun _ => rfl
  | string =>
    rw [printedLiterals_leaf rfl]
    exact Emits.nil s
  | assignment declared right =>
    rw [printedLiterals_branch rfl (by simp)]
    simpa using ((right.emits builtins funcs).snoc (storeOp_silent tag Γ _)).snoc
      (loadOp_silent tag Γ _)
  | arithmetic isArith rule first second =>
    rw [printedLiterals_branch rfl (by simp)]
    simpa using ((first.emits builtins funcs).append (second.emits builtins funcs)).snoc
      fun _ => rfl
  | and first second =>
    rw [printedLiterals_branch rfl (by simp)]
    have hset := (second.emits builtins funcs).snoc (i := .op (.localSet scratch)) fun _ => rfl
    have hzero := ((Emits.nil s').cons (i := .op (.localSet scratch)) fun _ => rfl).cons
      (i := .op (.number 0)) fun _ => rfl
    simpa [andCode] using (first.emits builtins funcs).append
      ((hset.cond hzero).snoc (i := .op (.localGet scratch)) fun _ => rfl)
  | @or _ _ _ _ _ _ _ s₁ _ _ first second =>
    rw [printedLiterals_branch rfl (by simp)]
    have hset := (second.emits builtins funcs).snoc (i := .op (.localSet scratch)) fun _ => rfl
    have hone := ((Emits.nil s₁).cons (i := .op (.localSet scratch)) fun _ => rfl).cons
      (i := .op (.number 1)) fun _ => rfl
    simpa [orCode] using (first.emits builtins funcs).append
      ((hone.cond hset).snoc (i := .op (.localGet scratch)) fun _ => rfl)
  | negation operand =>
    rw [printedLiterals_branch rfl (by simp)]
    simpa using ((operand.emits builtins funcs).cons fun _ => rfl).snoc fun _ => rfl
  | complement operand =>
    rw [printedLiterals_branch rfl (by simp)]
    simpa using (operand.emits builtins funcs).snoc fun _ => rfl
  | call resolved valued arguments =>
    rw [printedLiterals_call funcs resolved valued]
    simpa using (arguments.emits builtins funcs).append (callOps_silent resolved valued s')
  | print library =>
    rw [printedLiterals_prints builtins (by rwa [funcs])]
    exact ⟨rfl, fun _ => rfl⟩

theorem ArgsCode.emits (builtins : scopes.builtins = .builtins)
    (funcs : scopes.globals.funcs = Γ.funcs) {args : List Node} {tys : List Ty} {s s' : State}
    {code : Code} (h : ArgsCode tag Γ args tys s code s') :
    Emits s (scopes.printedLiteralsAll args) code s' := by
  cases h with
  | nil =>
    rw [printedLiteralsAll_nil]
    exact Emits.nil s
  | cons first commented others =>
    rw [printedLiteralsAll_cons]
    exact ((first.emits builtins funcs).commented commented).append (others.emits builtins funcs)

end

end Expressions

/-! ## Statements, functions and programs -/

section Statements

variable {scopes : Scopes} {tag : Bytes} {result : Ty}

theorem Emits.dropValue {s s' : State} {lits : List Bytes} {code : Code}
    (h : Emits s lits code s') (ty : Ty) : Emits s lits (dropValue ty code) s' := by
  unfold Lower.dropValue
  split
  · exact h.snoc fun _ => rfl
  · exact h

/-- A loop emits what its body emits, since its condition emits nothing. -/
theorem Emits.whileLoop {s s₁ s₂ s' : State} {lits : List Bytes} {test code again : Code}
    (htest : Emits s [] test s₁) (hcode : Emits s₁ lits code s₂) (hagain : Emits s₂ [] again s')
    (num : Nat) : Emits s lits [whileLoop num test code again] s' := by
  have hloop := ((hcode.append hagain).snoc (i := .op (.brIf (loopLabel num)))
    fun _ => rfl).loop (loopLabel num)
  have hguarded := (hloop.cons (i := .op (.brIf (breakLabel num))) fun _ => rfl).cons
    (i := .op .eqz) fun _ => rfl
  simpa [Lower.whileLoop] using (htest.append hguarded).block (breakLabel num)

mutual

/-- The code of a statement emits the literals that the statement prints. -/
theorem StmtCode.emits {Γ : Names} (builtins : scopes.builtins = .builtins)
    (funcs : scopes.globals.funcs = Γ.funcs) {loops : List Nat} {n : Node} {s s' : State}
    {code : Code} (h : StmtCode tag Γ result loops n s code s') :
    Emits s (scopes.printedLiterals n) code s' := by
  cases h with
  | block statements =>
    rw [printedLiterals_branch rfl (by simp)]
    exact statements.emits builtins funcs
  | expression value commented =>
    rw [printedLiterals_branch rfl (by simp)]
    simpa using ((value.emits builtins funcs).commented commented).dropValue _
  | call isCall value => exact (value.emits builtins funcs).dropValue _
  | null =>
    rw [printedLiterals_leaf rfl]
    exact Emits.nil s
  | @ifThen _ _ _ _ _ _ _ _ _ _ _ _ condition commented whenTrue =>
    rw [printedLiterals_branch rfl (by simp)]
    simpa using ((condition.emits builtins funcs).commented commented).append
      ((whenTrue.emits builtins funcs).cond (Emits.nil s'))
  | ifElse condition commented whenTrue whenFalse =>
    rw [printedLiterals_branch rfl (by simp)]
    simpa using ((condition.emits builtins funcs).commented commented).append
      ((whenTrue.emits builtins funcs).cond (whenFalse.emits builtins funcs))
  | @«while» _ _ _ _ cond body _ _ _ _ _ _ _ _ _ condition commented repeated conditionAgain
      commentedAgain =>
    have hcond : scopes.printedLiterals cond = [] := condition.printsNothing funcs rfl
    have htest := (condition.emits builtins funcs).commented commented
    have hagain := (conditionAgain.emits builtins funcs).commented commentedAgain
    rw [hcond] at htest hagain
    rw [printedLiterals_branch rfl (by simp), printedLiteralsAll_cons, hcond]
    have hloop := htest.whileLoop (repeated.emits builtins funcs) hagain s.labels
    -- a fresh label leaves the literals alone
    exact ⟨by simpa using hloop.literals, fun before => by simpa using hloop.operands before⟩
  | returnNothing isVoid =>
    rw [printedLiterals_branch rfl (by simp)]
    exact (Emits.nil s).cons fun _ => rfl
  | returnValue hasResult valueCode commented =>
    rw [printedLiterals_branch rfl (by simp)]
    simpa using ((valueCode.emits builtins funcs).commented commented).snoc
      (i := .op .ret) fun _ => rfl
  | «break» =>
    rw [printedLiterals_leaf rfl]
    exact (Emits.nil s).cons fun _ => rfl

theorem StmtsCode.emits {Γ : Names} (builtins : scopes.builtins = .builtins)
    (funcs : scopes.globals.funcs = Γ.funcs) {loops : List Nat} {ss : List Node} {s s' : State}
    {code : Code} (h : StmtsCode tag Γ result loops ss s code s') :
    Emits s (scopes.printedLiteralsAll ss) code s' := by
  cases h with
  | nil =>
    rw [printedLiteralsAll_nil]
    exact Emits.nil s
  | cons first others =>
    rw [printedLiteralsAll_cons]
    exact (first.emits builtins funcs).append (others.emits builtins funcs)

end

theorem BodyCode.emits (builtins : scopes.builtins = .builtins) {Γ : Names} {ss : List Node}
    {s s' : State} {code : Code} (h : BodyCode tag result Γ ss s code s')
    (funcs : scopes.globals.funcs = Γ.funcs) :
    Emits s (scopes.printedLiteralsAll ss) code s' := by
  induction h with
  | nil =>
    rw [printedLiteralsAll_nil]
    exact Emits.nil _
  | declaration _ binds _ ih =>
    rw [printedLiteralsAll_cons, printedLiterals_binding binds]
    exact ih funcs
  | statement first _ ih =>
    rw [printedLiteralsAll_cons]
    exact (first.emits builtins funcs).append (ih funcs)

end Statements

section Programs

variable {scopes : Scopes}

theorem printedLiteralsAll_bindings {ps : List Node} {params : List (Bytes × Ty)}
    (binds : ps.mapM Node.binding? = some params) : scopes.printedLiteralsAll ps = [] := by
  induction ps generalizing params with
  | nil => exact printedLiteralsAll_nil
  | cons p rest ih =>
    obtain ⟨v, vs, hv, hrest, -⟩ := bindings_cons.mp binds
    rw [printedLiteralsAll_cons, printedLiterals_binding hv, ih hrest]
    rfl

/-- The body of a module function emits the literals that the declaration prints. -/
theorem FunctionCode.emits (builtins : scopes.builtins = .builtins)
    {globals : List (Bytes × Ty)} {funcs : List (Bytes × Signature)}
    (userFuncs : scopes.globals.funcs = funcs) {d : Node} {name : Bytes} {sig : Signature}
    {f : Wat.Func Op} {s s' : State}
    (isDeclaration : d.kind = .functionDeclaration ∨ d.kind = .entryPointDeclaration)
    (h : FunctionCode globals funcs d name sig f s s') :
    Emits s (scopes.printedLiterals d) f.body s' := by
  cases h with
  | @intro kind _ _ _ resultNode _ _ _ _ listAttr listLoc listNote ps bodyAttr bodyLoc bodyNote
      ss result _ _ _ _ _ _ _ isResult binds _ _ body _ _ _ =>
    have hresult : scopes.printedLiterals resultNode = [] := by
      apply printedLiterals_leaf
      revert isResult
      cases resultNode.kind <;> simp [Kind.type?, Kind.isLeaf]
    have hparams : scopes.printedLiterals
        ⟨.formalParameterList, listAttr, listLoc, listNote, ps⟩ = [] := by
      rw [printedLiterals_branch rfl (by simp), printedLiteralsAll_bindings binds]
    have hblock : scopes.printedLiterals ⟨.block, bodyAttr, bodyLoc, bodyNote, ss⟩ =
        scopes.printedLiteralsAll ss := printedLiterals_branch rfl (by simp)
    have hkind : kind.isLeaf = false ∧ kind ≠ .functionInvocation := by
      rcases isDeclaration with rfl | rfl <;> simp [Kind.isLeaf]
    have hbody := body.emits builtins userFuncs
    rw [printedLiterals_branch hkind.1 hkind.2]
    simp only [printedLiteralsAll_cons, printedLiteralsAll_nil, hresult, hparams, hblock,
      printedLiterals_id, List.nil_append, List.append_nil]
    unfold funcOf
    dsimp only
    split
    · exact hbody.snoc fun _ => rfl
    · exact hbody

/-- The operands of every call of `prints` in the functions of a module, in order. -/
def printOperandsOf (funcs : List (Wat.Func Op)) : List Code :=
  funcs.flatMap fun f => printOperands [] f.body

/-- Functions that take the literals from `s` to `s'`, as `Emits` has it for code. -/
structure FuncsEmit (s : State) (lits : List Bytes) (funcs : List (Wat.Func Op)) (s' : State) :
    Prop where
  literals : s'.literals = s.literals.internAll lits
  operands : printOperandsOf funcs = layOut literalOperands s.literals.size lits

theorem FuncsEmit.cons {s s₁ s' : State} {lits₁ lits₂ : List Bytes} {f : Wat.Func Op}
    {funcs : List (Wat.Func Op)} (hf : Emits s lits₁ f.body s₁)
    (h : FuncsEmit s₁ lits₂ funcs s') : FuncsEmit s (lits₁ ++ lits₂) (f :: funcs) s' where
  literals := by rw [h.literals, hf.literals, Wat.Literals.internAll_append]
  operands := by
    show printOperands [] f.body ++ printOperandsOf funcs = _
    rw [hf.operands, h.operands, hf.literals, Wat.Literals.internAll_size, Wat.layOut_append]

/-- The functions of a program emit the literals that the program prints. -/
theorem DeclsCode.emits (builtins : scopes.builtins = .builtins)
    {globals vs : List (Bytes × Ty)} {funcs fs : List (Bytes × Signature)}
    (userFuncs : scopes.globals.funcs = funcs) {ds : List Node} {parts : Parts} {s s' : State}
    (h : DeclsCode globals funcs ds vs fs parts s s') :
    FuncsEmit s (scopes.printedLiteralsAll ds) parts.funcs s' := by
  induction h with
  | nil =>
    rw [printedLiteralsAll_nil]
    exact ⟨rfl, rfl⟩
  | entryPoint isEntry _ code _ ih =>
    rw [printedLiteralsAll_cons]
    exact .cons (code.emits builtins userFuncs (.inr isEntry)) ih
  | function isFunction code _ ih =>
    rw [printedLiteralsAll_cons]
    exact .cons (code.emits builtins userFuncs (.inl isFunction)) ih
  | global _ binds _ ih =>
    rw [printedLiteralsAll_cons, printedLiterals_binding binds]
    exact ih

/-- The words of the runtime library. -/
def libraryWords : List Bytes :=
  [utf8 "true", utf8 "false"]

theorem library_printOperands :
    printOperandsOf library = layOut literalOperands 0 libraryWords := rfl

/-- The literals of the module of a program that passed the checker, and the operands of
the calls in it. -/
theorem layOut_of_checkProgram {root : Node} {checked : Check.CheckedProgram}
    (accepted : Check.checkProgram root = .ok checked) (debug : Bool) :
    ∃ m, program ⟨checked.scopes, debug⟩ checked.tree = .ok m ∧
      m.data = layOut (fun place raw => ⟨place, Wat.escapeLiteral raw⟩) 0
        (libraryWords ++ checked.scopes.printedLiterals root) ∧
      printOperandsOf m.funcs =
        layOut literalOperands 0 (libraryWords ++ checked.scopes.printedLiterals root) ∧
      m.memory = Wat.pagesFor
        ((libraryWords ++ checked.scopes.printedLiterals root).map literalLength).sum := by
  obtain ⟨parts, s, hmodule, hcode⟩ := declsCode_of_checkProgram accepted debug
  obtain ⟨root', c, hcollect, hbuiltins, -⟩ := collected_of_checkProgram accepted
  obtain ⟨-, hkind, -⟩ := Check.collectGlobals_ok hcollect
  obtain ⟨hliterals, hoperands⟩ := hcode.emits hbuiltins rfl
  have hroot : checked.scopes.printedLiterals root =
      checked.scopes.printedLiteralsAll root.children := by
    rcases root with ⟨kind, attr, loc, note, children⟩
    obtain rfl : kind = .globalDeclarations := hkind
    exact printedLiterals_branch rfl (by simp)
  have hall : s.literals = Wat.Literals.empty.internAll
      (libraryWords ++ checked.scopes.printedLiterals root) := by
    rw [Wat.Literals.internAll_append, hroot, hliterals]
    rfl
  refine ⟨moduleWith parts s, program_ok hmodule, ?_, ?_, ?_⟩
  · show s.literals.data = _
    rw [hall, Wat.Literals.internAll_data]
    rfl
  · show printOperandsOf (library ++ parts.funcs) = _
    have happend : printOperandsOf (library ++ parts.funcs) =
        printOperandsOf library ++ printOperandsOf parts.funcs := List.flatMap_append
    rw [happend, library_printOperands, hoperands, hroot, Wat.layOut_append]
    rfl
  · show (Wat.pagesFor s.literals.size : Int) = _
    rw [hall, Wat.Literals.internAll_size, show Wat.Literals.empty.size = 0 from rfl,
      Nat.zero_add]

/-- The literals of the module of a program that passed the checker are the two words of
the library and the arguments of the calls that mean the library's `prints`, each once and
in source order.  They lie one behind the other: each begins where the one before it
ends.  The calls of `prints` in the module, again in order, push the place and the length
of one literal each, and the memory has the fewest pages that hold all of them. -/
theorem program_layout {root : Node} {checked : Check.CheckedProgram}
    (accepted : Check.checkProgram root = .ok checked) (debug : Bool) :
    let lits := libraryWords ++ checked.scopes.printedLiterals root
    ∃ m, program ⟨checked.scopes, debug⟩ checked.tree = .ok m ∧
      m.data.length = lits.length ∧ (printOperandsOf m.funcs).length = lits.length ∧
      (∀ i raw, lits[i]? = some raw →
        m.data[i]? = some ⟨offsetOf lits i, Wat.escapeLiteral raw⟩ ∧
        (printOperandsOf m.funcs)[i]? =
          some [.op (.number (offsetOf lits i)), .op (.number (literalLength raw))] ∧
        offsetOf lits (i + 1) = offsetOf lits i + literalLength raw ∧
        ∀ j, i < j → offsetOf lits i + literalLength raw ≤ offsetOf lits j) ∧
      ∃ pages : Nat, m.memory = pages ∧ offsetOf lits lits.length ≤ pages * Wat.pageSize ∧
        ∀ k : Nat, offsetOf lits lits.length ≤ k * Wat.pageSize → pages ≤ k := by
  intro lits
  obtain ⟨m, hprogram, hdata, hoperands, hmemory⟩ := layOut_of_checkProgram accepted debug
  refine ⟨m, hprogram, ?_, ?_, ?_, Wat.pagesFor (lits.map literalLength).sum, hmemory, ?_, ?_⟩
  · rw [hdata, Wat.layOut_length]
  · rw [hoperands, Wat.layOut_length]
  · intro i raw hraw
    have hnext := Wat.offsetOf_succ hraw
    refine ⟨?_, ?_, hnext, ?_⟩
    · rw [hdata, Wat.layOut_getElem?, hraw, Nat.zero_add]
      rfl
    · rw [hoperands, Wat.layOut_getElem?, hraw, Nat.zero_add]
      rfl
    · intro j later
      rw [← hnext]
      exact Wat.offsetOf_mono lits later
  · rw [Wat.offsetOf_length]
    exact (Wat.pagesFor_le_iff _ _).mp (Nat.le_refl _)
  · intro k holds
    rw [Wat.offsetOf_length] at holds
    exact (Wat.pagesFor_le_iff _ k).mpr holds

/-- The module of the sample program has three literals, and its last call of `prints`
writes the third one, two bytes behind the words of the library. -/
theorem sampleProgram_layout :
    ∃ checked m, Check.checkProgram sampleProgram = .ok checked ∧
      program ⟨checked.scopes, false⟩ checked.tree = .ok m ∧
      m.data[2]? = some ⟨9, utf8 "\\t\\21"⟩ ∧
      (printOperandsOf m.funcs)[2]? = some [.op (.number 9), .op (.number 2)] := by
  obtain ⟨checked, accepted⟩ := sampleProgram_accepted
  have hlits : checked.scopes.printedLiterals sampleProgram = [utf8 "\\t!"] := by
    have hprinted : (match Check.checkProgram sampleProgram with
        | .ok checked => checked.scopes.printedLiterals sampleProgram
        | .error _ => []) = [utf8 "\\t!"] := by decide +kernel
    rw [accepted] at hprinted
    exact hprinted
  obtain ⟨m, hprogram, -, -, hentries, -⟩ := program_layout accepted false
  rw [hlits] at hentries
  obtain ⟨hdata, hoperands, -⟩ := hentries 2 (utf8 "\\t!") rfl
  exact ⟨checked, m, accepted, hprogram, hdata, hoperands⟩

end Programs

end Lower

end TreeWat
