import TreeWat.Proofs.Lower.AnyState
import TreeWat.Proofs.Lower.Behaviour
import TreeWat.Proofs.Lower.Program
import TreeWat.Proofs.Wat.CommentRows
set_option autoImplicit false

/-!
# Lower: the lines of generated code

If no text of a program has a line break in it, every line of its module is one row, and no
line but a comment looks like one.  And a second arm is printed in both modes or in none,
unless all it holds are string literals in the place of statements: these have no code, so
that debug mode has only a comment to print.
-/

namespace TreeWat

namespace Node

/-- No text of the tree has a line break. -/
def Unbroken (n : Node) : Prop :=
  ∀ m ∈ n.preorder, OneLine m.attr

instance : DecidablePred Unbroken :=
  fun n => inferInstanceAs (Decidable (∀ m ∈ n.preorder, OneLine m.attr))

theorem Unbroken.attr {n : Node} (h : n.Unbroken) : OneLine n.attr :=
  h n n.mem_preorder_self

theorem Unbroken.child {n c : Node} (h : n.Unbroken) (hc : c ∈ n.children) : c.Unbroken :=
  fun m hm => h m (mem_preorder_of_child hc hm)

/-- No name and no number of the tree has a line break.  These are the texts that go into
code. -/
def CodeUnbroken (n : Node) : Prop :=
  ∀ m ∈ n.preorder, m.kind = .id ∨ m.kind = .num → OneLine m.attr

instance : DecidablePred CodeUnbroken :=
  fun n => inferInstanceAs
    (Decidable (∀ m ∈ n.preorder, m.kind = .id ∨ m.kind = .num → OneLine m.attr))

theorem Unbroken.code {n : Node} (h : n.Unbroken) : n.CodeUnbroken :=
  fun m hm _ => h m hm

namespace CodeUnbroken

variable {n c : Node}

theorem name (h : n.CodeUnbroken) (isName : n.kind = .id) : OneLine n.attr :=
  h n n.mem_preorder_self (.inl isName)

theorem number (h : n.CodeUnbroken) (isNumber : n.kind = .num) : OneLine n.attr :=
  h n n.mem_preorder_self (.inr isNumber)

theorem child (h : n.CodeUnbroken) (hc : c ∈ n.children) : c.CodeUnbroken :=
  fun m hm => h m (mem_preorder_of_child hc hm)

end CodeUnbroken

/-- No statement of the tree is a string literal. -/
def StringsUsed (n : Node) : Prop :=
  ∀ m ∈ n.preorder, m.kind = .statementExpression → ∀ e ∈ m.children, e.kind ≠ .string

instance : DecidablePred StringsUsed :=
  fun n => inferInstanceAs (Decidable
    (∀ m ∈ n.preorder, m.kind = .statementExpression → ∀ e ∈ m.children, e.kind ≠ .string))

theorem StringsUsed.child {n c : Node} (h : n.StringsUsed) (hc : c ∈ n.children) :
    c.StringsUsed :=
  fun m hm => h m (mem_preorder_of_child hc hm)

end Node

namespace Wat

/-- What a plain instruction takes from the program. -/
def Op.operand : Op → Bytes
  | .const literal => literal
  | .localGet name => name
  | .localSet name => name
  | .globalGet name => name
  | .globalSet name => name
  | .call name => name
  | .br label => label
  | .brIf label => label
  | _ => []

theorem Op.oneLine_text {a : Op} (h : OneLine a.operand) : OneLine a.text := by
  cases a with
  | arith a => cases a <;> decide
  | eqz | load8 | drop | ret | unreachable => decide
  | _ => exact oneLine_append.mpr ⟨by decide, h⟩

/-- No plain instruction looks like a comment. -/
theorem Op.isCommentRow_text (a : Op) : isCommentRow a.text = false := by
  cases a with
  | arith a => cases a <;> rfl
  | _ => rfl

end Wat

namespace Lower

open Wat (Code Op Instr uncommented comments bodyLines armsKept Plain AllPlain)

/-! ## Lines of code -/

/-- The lines of the code without its comments are rows, and none looks like a comment. -/
def Tidy (code : Code) : Prop :=
  ∀ depth, AllPlain (bodyLines Op.text depth (uncommented code))

namespace Tidy

variable {code more : Code}

theorem nil : Tidy [] := fun depth => by
  simp [bodyLines]

theorem append (h : Tidy code) (h' : Tidy more) : Tidy (code ++ more) := by
  intro depth
  rw [Wat.uncommented_append, Wat.bodyLines_append, Wat.allPlain_append]
  exact ⟨h depth, h' depth⟩

/-- An instruction that is left over as one with the given lines. -/
theorem single {i i' : Instr Op} (left : i.uncommented = [i'])
    (h : ∀ depth, AllPlain (i'.lines Op.text depth)) : Tidy [i] := by
  intro depth
  rw [Wat.uncommented_cons, left, Wat.uncommented_nil, List.append_nil, Wat.bodyLines_single]
  exact h depth

theorem op {a : Op} (h : OneLine a.operand) : Tidy [.op a] :=
  single rfl fun depth => by
    rw [Instr.lines, Wat.allPlain_cons]
    exact ⟨⟨Op.oneLine_text h, a.isCommentRow_text⟩, Wat.allPlain_nil⟩

theorem cons {a : Op} (h : OneLine a.operand) (h' : Tidy more) : Tidy (.op a :: more) :=
  (op h).append h'

theorem comment (text : Bytes) : Tidy [.comment text] := fun depth => by
  simp [bodyLines]

theorem block {label : Bytes} (h : OneLine label) (h' : Tidy code) : Tidy [.block label code] :=
  single rfl fun depth => by
    have opening : OneLine (utf8 "(block " ++ label) := oneLine_append.mpr ⟨by decide, h⟩
    rw [Instr.lines, List.cons_append, Wat.allPlain_cons, Wat.allPlain_append]
    exact ⟨⟨opening, rfl⟩, h' (depth + 1), Wat.allPlain_cons.mpr ⟨by decide, Wat.allPlain_nil⟩⟩

theorem loop {label : Bytes} (h : OneLine label) (h' : Tidy code) : Tidy [.loop label code] :=
  single rfl fun depth => by
    have opening : OneLine (utf8 "(loop " ++ label) := oneLine_append.mpr ⟨by decide, h⟩
    rw [Instr.lines, List.cons_append, Wat.allPlain_cons, Wat.allPlain_append]
    exact ⟨⟨opening, rfl⟩, h' (depth + 1), Wat.allPlain_cons.mpr ⟨by decide, Wat.allPlain_nil⟩⟩

theorem cond {whenTrue whenFalse : Code} (h : Tidy whenTrue) (h' : Tidy whenFalse) :
    Tidy [.cond whenTrue whenFalse] :=
  single rfl fun depth => by
    have closing : Plain (utf8 ")") := by decide
    have arm : AllPlain (Wat.armLines Op.text depth (uncommented whenFalse)) := by
      unfold Wat.armLines
      split
      · exact Wat.allPlain_nil
      · rw [List.cons_append, Wat.allPlain_cons, Wat.allPlain_append]
        exact ⟨by decide, h' (depth + 2), Wat.allPlain_cons.mpr ⟨closing, Wat.allPlain_nil⟩⟩
    rw [Instr.lines_cond]
    simp only [Wat.allPlain_append, Wat.allPlain_cons]
    refine ⟨⟨by decide, by decide, Wat.allPlain_nil⟩, h (depth + 2), ⟨closing, Wat.allPlain_nil⟩,
      arm, closing, Wat.allPlain_nil⟩

theorem commented {code' : Code} (h : Commented code code') (htidy : Tidy code) : Tidy code' := by
  cases h with
  | bare => exact htidy
  | comment text => exact htidy.append (.comment text)

end Tidy

/-! ## Names -/

@[simp] theorem oneLine_localName {tag name : Bytes} :
    OneLine (localName tag name) ↔ OneLine tag ∧ OneLine name := by
  have sign : OneLine (utf8 "$") := by decide
  simp [localName, sign]

@[simp] theorem oneLine_globalName {name : Bytes} : OneLine (globalName name) ↔ OneLine name := by
  have start : OneLine (utf8 "$" ++ utf8 "G") := by decide
  simp [globalName, oneLine_append.mp start]

@[simp] theorem oneLine_libraryName {name : Bytes} : OneLine (libraryName name) ↔ OneLine name := by
  have start : OneLine (utf8 "$" ++ utf8 "D") := by decide
  simp [libraryName, oneLine_append.mp start]

@[simp] theorem oneLine_breakLabel (num : Nat) : OneLine (breakLabel num) :=
  oneLine_append.mpr ⟨by decide, oneLine_ofNat num⟩

@[simp] theorem oneLine_loopLabel (num : Nat) : OneLine (loopLabel num) :=
  oneLine_append.mpr ⟨by decide, oneLine_ofNat num⟩

theorem oneLine_scratch : OneLine scratch := by
  decide

section Code

variable {tag : Bytes} {Γ : Names}

theorem oneLine_loadOp {name : Bytes} (htag : OneLine tag) (h : OneLine name) :
    OneLine (loadOp tag Γ name).operand := by
  unfold loadOp
  split
  · exact oneLine_localName.mpr ⟨htag, h⟩
  · exact oneLine_globalName.mpr h

theorem oneLine_storeOp {name : Bytes} (htag : OneLine tag) (h : OneLine name) :
    OneLine (storeOp tag Γ name).operand := by
  unfold storeOp
  split
  · exact oneLine_localName.mpr ⟨htag, h⟩
  · exact oneLine_globalName.mpr h

theorem oneLine_number (n : Int) : OneLine (Op.number n).operand :=
  oneLine_ofInt n

theorem tidy_number (n : Int) : Tidy [.op (.number n)] :=
  .op (oneLine_number n)

theorem tidy_callOps {name : Bytes} (h : OneLine name) : Tidy (callOps Γ name) := by
  unfold callOps
  split
  · exact .op (oneLine_globalName.mpr h)
  · split
    · exact .cons (oneLine_libraryName.mpr h) (.op oneLine_nil)
    · exact .op (oneLine_libraryName.mpr h)

/-! ## Expressions -/

mutual

theorem ExprCode.tidy {n : Node} {ty : Ty} {s s' : State} {code : Code}
    (h : ExprCode tag Γ n ty s code s') (htag : OneLine tag) (line : n.CodeUnbroken) :
    Tidy code := by
  cases h with
  | name declared => exact .op (oneLine_loadOp htag (line.name rfl))
  | number => exact .op (line.number rfl)
  | trueLiteral => exact tidy_number 1
  | falseLiteral => exact tidy_number 0
  | string => exact .nil
  | assignment declared right =>
    have hname := (line.child List.mem_cons_self).name rfl
    exact (right.tidy htag (line.child (by simp))).append
      (.cons (oneLine_storeOp htag hname) (.op (oneLine_loadOp htag hname)))
  | arithmetic isArith rule first second =>
    have hfirst := first.tidy htag (line.child (by simp))
    have hsecond := second.tidy htag (line.child (by simp))
    exact (hfirst.append hsecond).append (.op oneLine_nil)
  | and first second =>
    have hfirst := first.tidy htag (line.child (by simp))
    have hsecond := second.tidy htag (line.child (by simp))
    have set : Tidy [.op (.localSet scratch)] := .op oneLine_scratch
    exact hfirst.append
      ((Tidy.cond (hsecond.append set) ((tidy_number 0).append set)).append (.op oneLine_scratch))
  | or first second =>
    have hfirst := first.tidy htag (line.child (by simp))
    have hsecond := second.tidy htag (line.child (by simp))
    have set : Tidy [.op (.localSet scratch)] := .op oneLine_scratch
    exact hfirst.append
      ((Tidy.cond ((tidy_number 1).append set) (hsecond.append set)).append (.op oneLine_scratch))
  | negation operand =>
    have hoperand := operand.tidy htag (line.child (by simp))
    exact ((tidy_number 0).append hoperand).append (.op oneLine_nil)
  | complement operand =>
    exact (operand.tidy htag (line.child (by simp))).append (.op oneLine_nil)
  | call resolved valued arguments =>
    have hname := (line.child List.mem_cons_self).name rfl
    have hlist := line.child (List.mem_cons_of_mem _ List.mem_cons_self)
    exact (arguments.tidy htag fun a ha => hlist.child ha).append (tidy_callOps hname)
  | print library =>
    have hname : OneLine (libraryName (utf8 "prints")) := by decide
    exact .cons (oneLine_number _) (.cons (oneLine_number _) (.op hname))

theorem ArgsCode.tidy {args : List Node} {tys : List Ty} {s s' : State} {code : Code}
    (h : ArgsCode tag Γ args tys s code s') (htag : OneLine tag)
    (line : ∀ a ∈ args, a.CodeUnbroken) : Tidy code := by
  cases h with
  | nil => exact .nil
  | cons first commented others =>
    obtain ⟨hfirst, hothers⟩ := List.forall_mem_cons.mp line
    exact (Tidy.commented commented (first.tidy htag hfirst)).append (others.tidy htag hothers)

end

/-- The code of an expression has arms that both modes print. -/
theorem composes_armsKept : Composes tag Γ armsKept where
  nil := trivial
  append h h' := Wat.armsKept_append.mpr ⟨h, h'⟩
  op _ := ⟨trivial, trivial⟩
  comment _ := ⟨trivial, trivial⟩
  and h := by simp [h]
  or h := by simp [h]

/-- Only a string literal has no code. -/
theorem ExprCode.uncommented_ne_nil {n : Node} {ty : Ty} {s s' : State} {code : Code}
    (h : ExprCode tag Γ n ty s code s') (used : n.kind ≠ .string) : uncommented code ≠ [] := by
  cases h with
  | string => exact absurd rfl used
  | call resolved valued arguments =>
    unfold callOps
    split
    · simp
    · split <;> simp
  | _ => simp [andCode, orCode]

end Code

/-! ## Statements -/

section Statements

variable {tag : Bytes} {Γ : Names} {result : Ty}

theorem Tidy.dropValue {code : Code} (h : Tidy code) (ty : Ty) : Tidy (dropValue ty code) := by
  unfold Lower.dropValue
  split
  · exact h.append (.op oneLine_nil)
  · exact h

theorem Tidy.whileLoop {test code again : Code} (num : Nat) (htest : Tidy test)
    (hcode : Tidy code) (hagain : Tidy again) : Tidy [whileLoop num test code again] := by
  have inner : Tidy [.loop (loopLabel num) (code ++ again ++ [.op (.brIf (loopLabel num))])] :=
    .loop (oneLine_loopLabel num)
      ((hcode.append hagain).append (.op (oneLine_loopLabel num)))
  exact .block (oneLine_breakLabel num)
    (htest.append (.cons oneLine_nil (.cons (oneLine_breakLabel num) inner)))

mutual

theorem StmtCode.tidy {loops : List Nat} {n : Node} {s s' : State} {code : Code}
    (h : StmtCode tag Γ result loops n s code s') (htag : OneLine tag) (line : n.CodeUnbroken) :
    Tidy code := by
  cases h with
  | block statements => exact statements.tidy htag fun m hm => line.child hm
  | expression value commented =>
    exact (Tidy.commented commented (value.tidy htag (line.child (by simp)))).dropValue _
  | call isCall value => exact (value.tidy htag line).dropValue _
  | null => exact .nil
  | ifThen condition commented whenTrue =>
    have htest := Tidy.commented commented (condition.tidy htag (line.child (by simp)))
    exact htest.append (.cond (whenTrue.tidy htag (line.child (by simp))) .nil)
  | ifElse condition commented whenTrue whenFalse =>
    have htest := Tidy.commented commented (condition.tidy htag (line.child (by simp)))
    exact htest.append (.cond (whenTrue.tidy htag (line.child (by simp)))
      (whenFalse.tidy htag (line.child (by simp))))
  | «while» condition commented repeated conditionAgain commentedAgain =>
    have hcond := line.child List.mem_cons_self
    exact .whileLoop _ (Tidy.commented commented (condition.tidy htag hcond))
      (repeated.tidy htag (line.child (by simp)))
      (Tidy.commented commentedAgain (conditionAgain.tidy htag hcond))
  | returnNothing => exact .op oneLine_nil
  | returnValue hasResult valueCode commented =>
    have hvalue := Tidy.commented commented (valueCode.tidy htag (line.child (by simp)))
    exact hvalue.append (.op oneLine_nil)
  | «break» => exact .op (oneLine_breakLabel _)

theorem StmtsCode.tidy {loops : List Nat} {ss : List Node} {s s' : State} {code : Code}
    (h : StmtsCode tag Γ result loops ss s code s') (htag : OneLine tag)
    (line : ∀ n ∈ ss, n.CodeUnbroken) : Tidy code := by
  cases h with
  | nil => exact .nil
  | cons first others =>
    obtain ⟨hfirst, hothers⟩ := List.forall_mem_cons.mp line
    exact (first.tidy htag hfirst).append (others.tidy htag hothers)

end

/-- Both modes print the arms in the code, and both print the code itself if one does. -/
structure Kept (code : Code) : Prop where
  arms : armsKept code
  left : code ≠ [] → uncommented code ≠ []

namespace Kept

variable {code more : Code}

theorem nil : Kept [] :=
  ⟨trivial, fun h => absurd rfl h⟩

theorem of_left (arms : armsKept code) (left : uncommented code ≠ []) : Kept code :=
  ⟨arms, fun _ => left⟩

theorem append (h : Kept code) (h' : Kept more) : Kept (code ++ more) := by
  refine ⟨Wat.armsKept_append.mpr ⟨h.arms, h'.arms⟩, fun some => ?_⟩
  rw [Wat.uncommented_append, ne_eq, List.append_eq_nil_iff, not_and_or]
  rw [ne_eq, List.append_eq_nil_iff, not_and_or] at some
  exact some.imp h.left h'.left

/-- An instruction other than a comment behind code. -/
theorem snoc {i i' : Instr Op} (arms : armsKept code) (stays : i.uncommented = [i'])
    (inner : i.ArmsKept) : Kept (code ++ [i]) :=
  of_left (Wat.armsKept_append.mpr ⟨arms, inner, trivial⟩) (by simp [stays])

end Kept

theorem armsKept_commented {code code' : Code} (h : Commented code code')
    (arms : armsKept code) : armsKept code' := by
  cases h with
  | bare => exact arms
  | comment text => exact Wat.armsKept_append.mpr ⟨arms, trivial, trivial⟩

theorem uncommented_of_commented {code code' : Code} (h : Commented code code') :
    uncommented code' = uncommented code := by
  cases h with
  | bare => rfl
  | comment text => simp

/-- Code that is left stays so if its value is dropped. -/
theorem Kept.dropValue {code : Code} (arms : armsKept code) (left : uncommented code ≠ [])
    (ty : Ty) : Kept (dropValue ty code) := by
  unfold Lower.dropValue
  split
  · exact .snoc arms rfl trivial
  · exact .of_left arms left

mutual

theorem StmtCode.kept {loops : List Nat} {n : Node} {s s' : State} {code : Code}
    (h : StmtCode tag Γ result loops n s code s') (used : n.StringsUsed) : Kept code := by
  cases h with
  | block statements => exact statements.kept fun m hm => used.child hm
  | expression value commented =>
    have notString := used _ (Node.mem_preorder_self _) rfl _ List.mem_cons_self
    refine .dropValue (armsKept_commented commented (value.composed composes_armsKept)) ?_ _
    rw [uncommented_of_commented commented]
    exact value.uncommented_ne_nil notString
  | call isCall value =>
    exact .dropValue (value.composed composes_armsKept)
      (value.uncommented_ne_nil (by simp [isCall])) _
  | null => exact .nil
  | ifThen condition commented whenTrue =>
    have htest := armsKept_commented commented (condition.composed composes_armsKept)
    have harm := (whenTrue.kept (used.child (by simp))).arms
    exact .snoc htest rfl ⟨harm, trivial, fun h => absurd rfl h⟩
  | ifElse condition commented whenTrue whenFalse =>
    have htest := armsKept_commented commented (condition.composed composes_armsKept)
    have first := whenTrue.kept (used.child (by simp))
    have second := whenFalse.kept (used.child (by simp))
    exact .snoc htest rfl ⟨first.arms, second.arms, second.left⟩
  | «while» condition commented repeated conditionAgain commentedAgain =>
    have htest := armsKept_commented commented (condition.composed composes_armsKept)
    have hagain := armsKept_commented commentedAgain (conditionAgain.composed composes_armsKept)
    have hbody := (repeated.kept (used.child (by simp))).arms
    refine .of_left ?_ (by simp [whileLoop])
    simp [whileLoop, htest, hbody, hagain]
  | returnNothing => exact .of_left ⟨trivial, trivial⟩ (by simp)
  | returnValue hasResult valueCode commented =>
    have hvalue := armsKept_commented commented (valueCode.composed composes_armsKept)
    exact .snoc hvalue rfl trivial
  | «break» => exact .of_left ⟨trivial, trivial⟩ (by simp)

theorem StmtsCode.kept {loops : List Nat} {ss : List Node} {s s' : State} {code : Code}
    (h : StmtsCode tag Γ result loops ss s code s') (used : ∀ n ∈ ss, n.StringsUsed) :
    Kept code := by
  cases h with
  | nil => exact .nil
  | cons first others =>
    obtain ⟨hfirst, hothers⟩ := List.forall_mem_cons.mp used
    exact (first.kept hfirst).append (others.kept hothers)

end

theorem BodyCode.tidy {ss : List Node} {s s' : State} {code : Code}
    (h : BodyCode tag result Γ ss s code s') (htag : OneLine tag)
    (line : ∀ n ∈ ss, n.CodeUnbroken) : Tidy code := by
  induction h with
  | nil => exact .nil
  | declaration _ _ _ ih => exact ih (List.forall_mem_cons.mp line).2
  | statement first _ ih =>
    obtain ⟨hfirst, hothers⟩ := List.forall_mem_cons.mp line
    exact (first.tidy htag hfirst).append (ih hothers)

theorem BodyCode.kept {ss : List Node} {s s' : State} {code : Code}
    (h : BodyCode tag result Γ ss s code s') (used : ∀ n ∈ ss, n.StringsUsed) : Kept code := by
  induction h with
  | nil => exact .nil
  | declaration _ _ _ ih => exact ih (List.forall_mem_cons.mp used).2
  | statement first _ ih =>
    obtain ⟨hfirst, hothers⟩ := List.forall_mem_cons.mp used
    exact (first.kept hfirst).append (ih hothers)

end Statements

/-! ## Functions -/

theorem oneLine_of_binding {n : Node} {name : Bytes} {ty : Ty}
    (binds : n.binding? = some (name, ty)) (line : n.CodeUnbroken) : OneLine name := by
  obtain ⟨t, id, hchildren, isName, -, rfl⟩ := Node.binding?_eq_some.mp binds
  exact (line.child (by simp [hchildren])).name isName

theorem oneLine_of_bindings {ns : List Node} {vs : List (Bytes × Ty)}
    (binds : ns.mapM Node.binding? = some vs) (line : ∀ n ∈ ns, n.CodeUnbroken) :
    ∀ v ∈ vs, OneLine v.1 := by
  induction ns generalizing vs with
  | nil =>
    cases binds
    simp
  | cons n rest ih =>
    obtain ⟨v, vs', hv, hrest, rfl⟩ := bindings_cons.mp binds
    obtain ⟨hfirst, hothers⟩ := List.forall_mem_cons.mp line
    exact List.forall_mem_cons.mpr ⟨oneLine_of_binding hv hfirst, ih hrest hothers⟩

theorem oneLine_of_declaredBy {ss : List Node} (line : ∀ n ∈ ss, n.CodeUnbroken) :
    ∀ v ∈ declaredBy ss, OneLine v.1 := by
  intro v hv
  obtain ⟨n, hn, hbinds⟩ := List.mem_filterMap.mp hv
  exact oneLine_of_binding hbinds (line n (List.mem_of_mem_filter hn))

/-- A function whose names and code are in order. -/
theorem allPlain_func {f : Wat.Func Op} (name : OneLine f.name) (params : ∀ p ∈ f.params, OneLine p)
    (locals : ∀ l ∈ f.locals, OneLine l) (body : Tidy f.body) :
    AllPlain (f.uncommented.lines Op.text) := by
  have hparams : OneLine (f.params.flatMap fun p => utf8 " (param " ++ p ++ utf8 " i32)") :=
    oneLine_flatMap fun p hp => oneLine_append.mpr
      ⟨oneLine_append.mpr ⟨by decide, params p hp⟩, by decide⟩
  have hresult : OneLine (if f.result then utf8 " (result i32)" else []) := by
    split <;> decide
  have hhead : Plain f.head :=
    ⟨oneLine_append.mpr ⟨oneLine_append.mpr ⟨oneLine_append.mpr ⟨by decide, name⟩, hparams⟩,
      hresult⟩, rfl⟩
  have hlocals : AllPlain (f.locals.map fun l => ⟨2, utf8 "(local " ++ l ++ utf8 " i32)"⟩) := by
    intro line hline
    obtain ⟨l, hl, rfl⟩ := List.mem_map.mp hline
    exact ⟨oneLine_append.mpr ⟨oneLine_append.mpr ⟨by decide, locals l hl⟩, by decide⟩, rfl⟩
  unfold Wat.Func.lines
  rw [Wat.allPlain_append, Wat.allPlain_append, Wat.allPlain_cons, Wat.allPlain_cons]
  exact ⟨⟨⟨hhead, hlocals⟩, body 2⟩, by decide, Wat.allPlain_nil⟩

variable {globals vs : List (Bytes × Ty)} {funcs fs : List (Bytes × Signature)}

theorem FunctionCode.allPlain {d : Node} {name : Bytes} {sig : Signature} {f : Wat.Func Op}
    {s s' : State} (h : FunctionCode globals funcs d name sig f s s') (line : d.CodeUnbroken) :
    AllPlain (f.uncommented.lines Op.text) := by
  cases h with
  | @intro kind attr loc note resultNode name nameLoc nameNote nameCh listAttr listLoc listNote ps
      bodyAttr bodyLoc bodyNote ss result params number tag scopes s code s' isResult binds distinct
      isTag body =>
    have htag : OneLine tag := by
      rw [isTag]
      exact oneLine_append.mpr ⟨by decide, oneLine_ofNat number⟩
    have hid : Node.CodeUnbroken ⟨.id, name, nameLoc, nameNote, nameCh⟩ := line.child (by simp)
    have hlist : Node.CodeUnbroken ⟨.formalParameterList, listAttr, listLoc, listNote, ps⟩ :=
      line.child (by simp)
    have hblock : Node.CodeUnbroken ⟨.block, bodyAttr, bodyLoc, bodyNote, ss⟩ :=
      line.child (by simp)
    have hparams := oneLine_of_bindings binds fun p hp => hlist.child hp
    have hdeclared := oneLine_of_declaredBy fun n hn => hblock.child hn
    have hcode := body.tidy htag fun n hn => hblock.child hn
    have stored {vs : List (Bytes × Ty)} (each : ∀ v ∈ vs, OneLine v.1) :
        ∀ l ∈ vs.map fun v => localName tag v.1, OneLine l := by
      intro l hl
      obtain ⟨v, hv, rfl⟩ := List.mem_map.mp hl
      exact oneLine_localName.mpr ⟨htag, each v hv⟩
    refine allPlain_func ?_ ?_ ?_ ?_
    · change OneLine (if decide (kind = .entryPointDeclaration) = true then entryName
        else globalName name)
      split
      · decide
      · exact oneLine_globalName.mpr (hid.name rfl)
    · unfold funcOf
      split
      · simp
      · exact stored hparams
    · refine List.forall_mem_cons.mpr ⟨oneLine_scratch, stored ?_⟩
      refine List.forall_mem_append.mpr ⟨?_, hdeclared⟩
      split
      · exact hparams
      · simp
    · change Tidy (if result ≠ .void then code ++ [.op .unreachable] else code)
      split
      · exact hcode.append (.op oneLine_nil)
      · exact hcode

theorem FunctionCode.armsKept {d : Node} {name : Bytes} {sig : Signature} {f : Wat.Func Op}
    {s s' : State} (h : FunctionCode globals funcs d name sig f s s') (used : d.StringsUsed) :
    armsKept f.body := by
  cases h with
  | @intro kind attr loc note resultNode name nameLoc nameNote nameCh listAttr listLoc listNote ps
      bodyAttr bodyLoc bodyNote ss result params number tag scopes s code s' isResult binds distinct
      isTag body =>
    have hblock : Node.StringsUsed ⟨.block, bodyAttr, bodyLoc, bodyNote, ss⟩ :=
      used.child (by simp)
    have hcode := (body.kept fun n hn => hblock.child hn).arms
    change Wat.armsKept (if result ≠ .void then code ++ [.op .unreachable] else code)
    split
    · exact Wat.armsKept_append.mpr ⟨hcode, trivial, trivial⟩
    · exact hcode

/-- What the declarations contribute is in order. -/
theorem DeclsCode.allPlain {ds : List Node} {parts : Parts} {s s' : State}
    (h : DeclsCode globals funcs ds vs fs parts s s') (line : ∀ d ∈ ds, d.CodeUnbroken) :
    AllPlain ((parts.funcs.map Wat.Func.uncommented).flatMap (Wat.Func.lines Op.text)) ∧
      ∀ g ∈ parts.globals, OneLine g := by
  induction h with
  | nil => simp
  | entryPoint _ _ code _ ih | function _ code _ ih =>
    obtain ⟨hfirst, hothers⟩ := List.forall_mem_cons.mp line
    obtain ⟨hfuncs, hglobals⟩ := ih hothers
    refine ⟨?_, hglobals⟩
    rw [List.map_cons, List.flatMap_cons, Wat.allPlain_append]
    exact ⟨code.allPlain hfirst, hfuncs⟩
  | global _ binds _ ih =>
    obtain ⟨hfirst, hothers⟩ := List.forall_mem_cons.mp line
    obtain ⟨hfuncs, hglobals⟩ := ih hothers
    have hname := oneLine_of_binding binds hfirst
    exact ⟨hfuncs, List.forall_mem_cons.mpr ⟨oneLine_globalName.mpr hname, hglobals⟩⟩

theorem DeclsCode.armsKept {ds : List Node} {parts : Parts} {s s' : State}
    (h : DeclsCode globals funcs ds vs fs parts s s') (used : ∀ d ∈ ds, d.StringsUsed) :
    ∀ f ∈ parts.funcs, armsKept f.body := by
  induction h with
  | nil => simp
  | entryPoint _ _ code _ ih | function _ code _ ih =>
    obtain ⟨hfirst, hothers⟩ := List.forall_mem_cons.mp used
    exact List.forall_mem_cons.mpr ⟨code.armsKept hfirst, ih hothers⟩
  | global _ _ _ ih => exact ih (List.forall_mem_cons.mp used).2

/-! ## String literals -/

theorem oneLine_escapeByte (b : UInt8) : OneLine (Wat.escapeByte b) :=
  oneLine_cons.mpr ⟨by decide, oneLine_ofHex 2 b.toNat⟩

theorem oneLine_escapePair {b : UInt8} (other : b ≠ byte '\n') : OneLine (Wat.escapePair b) := by
  unfold Wat.escapePair
  split
  · decide
  · split
    · decide
    · split
      · decide
      · exact oneLine_cons.mpr ⟨by decide, oneLine_cons.mpr ⟨other, oneLine_nil⟩⟩

theorem oneLine_escapeLiteral {raw : Bytes} (line : OneLine raw) :
    OneLine (Wat.escapeLiteral raw) := by
  fun_induction Wat.escapeLiteral raw with
  | case1 => exact oneLine_nil
  | case2 b => exact oneLine_escapeByte b
  | case3 c r ih =>
    obtain ⟨-, hrest⟩ := oneLine_cons.mp line
    obtain ⟨hc, hr⟩ := oneLine_cons.mp hrest
    exact oneLine_append.mpr ⟨oneLine_escapePair hc, ih hr⟩
  | case4 b c r _ ih =>
    exact oneLine_append.mpr ⟨oneLine_escapeByte b, ih (oneLine_cons.mp line).2⟩

theorem oneLine_data {t : Wat.Literals} (h : Wat.Literals.empty.Interned OneLine t) :
    ∀ d ∈ t.data, OneLine d.text := by
  induction h with
  | refl => simp [Wat.Literals.empty]
  | step _ holds ih =>
    refine List.forall_mem_append.mpr ⟨ih, ?_⟩
    rw [List.forall_mem_singleton]
    exact oneLine_escapeLiteral holds

theorem printedAll_of_unbroken {n : Node} (line : n.Unbroken) : Source.PrintedAll OneLine n := by
  intro m hm raw hraw
  unfold Source.printed? at hraw
  split at hraw
  · rename_i callee args hchildren
    split at hraw
    · rename_i literal hargs
      split at hraw
      · cases hraw
        have hlist : args ∈ m.children := by simp [hchildren]
        have hliteral : literal ∈ args.children := by simp [hargs]
        exact line literal (Node.mem_preorder_trans hm
          (Node.mem_preorder_of_child hlist (Node.mem_preorder_of_child hliteral
            literal.mem_preorder_self)))
      · cases hraw
    · cases hraw
  · cases hraw

/-! ## Modules -/

theorem library_allPlain :
    AllPlain ((library.map Wat.Func.uncommented).flatMap (Wat.Func.lines Op.text)) := by
  decide +kernel

theorem imports_allPlain :
    AllPlain ((libraryImports ⟨.initial, false⟩).map fun i => ⟨1, i.text⟩) := by
  decide +kernel

/-- Without line breaks in the program, every line of its module is one row, and none but the
comments looks like one. -/
theorem ModuleCode.allPlain {root : Node} {m : Wat.Module Op} {s : State}
    (h : ModuleCode root m s) (line : root.Unbroken) :
    AllPlain (m.uncommented.lines Op.text) := by
  cases h with
  | @intro attr loc note ds globals funcs parts s _ _ _ _ code =>
    obtain ⟨hfuncs, hglobals⟩ := code.allPlain fun d hd => (line.child hd).code
    have hdata := oneLine_data ((library_interned (by decide) (by decide)).trans
      (code.interned fun d hd => printedAll_of_unbroken (line.child hd)))
    have closing : Plain (utf8 ")") := by decide
    have allFuncs : AllPlain (((library ++ parts.funcs).map Wat.Func.uncommented).flatMap
        (Wat.Func.lines Op.text)) := by
      rw [List.map_append, List.flatMap_append, Wat.allPlain_append]
      exact ⟨library_allPlain, hfuncs⟩
    have globalLines : AllPlain (parts.globals.map fun g =>
        ⟨1, utf8 "(global " ++ g ++ utf8 " (mut i32) (i32.const 0))"⟩) := by
      intro l hl
      obtain ⟨g, hg, rfl⟩ := List.mem_map.mp hl
      exact ⟨oneLine_append.mpr ⟨oneLine_append.mpr ⟨by decide, hglobals g hg⟩, by decide⟩, rfl⟩
    have dataLines : AllPlain (s.literals.data.map fun d => ⟨1, d.lineText⟩) := by
      intro l hl
      obtain ⟨d, hd, rfl⟩ := List.mem_map.mp hl
      refine ⟨?_, rfl⟩
      simp only [Wat.Data.lineText, oneLine_append, oneLine_ofInt, hdata d hd]
      decide
    have memoryLine : Plain (utf8 "(memory " ++ Bytes.ofInt (Wat.pagesFor s.literals.size)
        ++ utf8 ")") :=
      ⟨oneLine_append.mpr ⟨oneLine_append.mpr ⟨by decide, oneLine_ofInt _⟩, by decide⟩, rfl⟩
    unfold Wat.Module.lines
    simp only [Wat.allPlain_append, Wat.allPlain_cons, Wat.allPlain_nil, and_true]
    refine ⟨⟨⟨⟨⟨⟨⟨by decide, imports_allPlain⟩, allFuncs⟩, globalLines⟩, ?_⟩, memoryLine⟩, dataLines⟩,
      closing⟩
    simp only [Wat.Module.uncommented, moduleWith]
    cases parts.hasEntry with
    | true => exact Wat.allPlain_cons.mpr ⟨by decide, Wat.allPlain_nil⟩
    | false => exact Wat.allPlain_nil

theorem ModuleCode.armsKept {root : Node} {m : Wat.Module Op} {s : State}
    (h : ModuleCode root m s) (used : root.StringsUsed) : m.ArmsKept := by
  cases h with
  | intro _ _ _ _ code =>
    refine List.forall_mem_append.mpr ⟨?_, code.armsKept fun d hd => used.child hd⟩
    have noComments : ∀ f ∈ library, comments f.body = [] := by decide
    exact fun f hf => Wat.armsKept_of_comments f.body (noComments f hf)

end Lower

end TreeWat
